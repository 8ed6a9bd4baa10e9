import Mathlib.Algebra.Ring.Parity
import Mathlib.Data.List.Basic

/-! Fields that are put in quotes, with doubled quotes inside, and joined by a separator. Blind
splitting at the separator can be undone by counting quotes. -/
namespace QuotedFields
variable {α : Type*} [DecidableEq α] {q sep : α}

/-- The text with every quote doubled. -/
def escape (q : α) (text : List α) : List α := text.flatMap fun c => if c = q then [q, q] else [c]

def quote (q : α) (text : List α) : List α := q :: escape q text ++ [q]

theorem escape_cons (q c : α) (text : List α) :
    escape q (c :: text) = (if c = q then [q, q] else [c]) ++ escape q text := rfl

/-! ### Taking quotes away -/

/-- Quotes occur in pairs only. -/
def isEscaped (q : α) : List α → Bool
  | [] => true
  | [c] => c ≠ q
  | c :: d :: text => if c = q then d = q && isEscaped q text else isEscaped q (d :: text)

/-- Replaces every pair of quotes by a single one, from left to right. -/
def unescape (q : α) : List α → List α
  | [] => []
  | [c] => [c]
  | c :: d :: text => if c = q ∧ d = q then q :: unescape q text else c :: unescape q (d :: text)

/-- The text within quotes, if there are quotes at both ends and none that is not doubled between. -/
def unquote (q : α) : List α → Option (List α)
  | [] => none
  | c :: rest =>
    if c = q ∧ rest.getLast? = some q ∧ isEscaped q rest.dropLast then some (unescape q rest.dropLast) else none

private theorem isEscaped_cons {q c : α} (hc : c ≠ q) (text : List α) :
    isEscaped q (c :: text) = isEscaped q text := by
  cases text with
  | nil => simp [isEscaped, hc]
  | cons d text => rw [isEscaped, if_neg hc]

private theorem unescape_cons {q c : α} (hc : c ≠ q) (text : List α) :
    unescape q (c :: text) = c :: unescape q text := by
  cases text with
  | nil => rfl
  | cons d text => rw [unescape, if_neg fun h => hc h.1]

theorem unescape_escape (q : α) (text : List α) :
    isEscaped q (escape q text) = true ∧ unescape q (escape q text) = text := by
  induction text with
  | nil => exact ⟨rfl, rfl⟩
  | cons c text ih =>
    rw [escape_cons]
    split
    · rename_i hc
      subst hc
      simp only [List.cons_append, List.nil_append, isEscaped, unescape, if_true, and_self, decide_true, Bool.true_and]
      exact ⟨ih.1, congrArg _ ih.2⟩
    · rename_i hc
      rw [List.singleton_append, isEscaped_cons hc, unescape_cons hc, ih.2]
      exact ⟨ih.1, rfl⟩

theorem unquote_quote (q : α) (text : List α) : unquote q (quote q text) = some text := by
  obtain ⟨hescaped, htext⟩ := unescape_escape q text
  simp [quote, unquote, hescaped, htext]

/-- Separators occur within quotes only, and the quotes are balanced. -/
structure Delimited (q sep : α) (field : List α) : Prop where
  inside : ∀ front back, field = front ++ sep :: back → Odd (front.count q)
  balanced : Even (field.count q)

theorem delimited_plain {field : List α} (hq : q ∉ field) (hsep : sep ∉ field) : Delimited q sep field := by
  constructor
  · rintro front back rfl
    exact absurd (List.mem_append_right front List.mem_cons_self) hsep
  · rw [List.count_eq_zero.mpr hq]
    exact Even.zero

private theorem count_escape (q : α) (text : List α) : Even ((escape q text).count q) := by
  induction text with
  | nil => exact Even.zero
  | cons c text ih =>
    rw [escape_cons, List.count_append]
    refine Even.add ?_ ih
    split
    · simp [even_two]
    · rename_i hc
      simp [hc]

private theorem count_escape_front (hne : sep ≠ q) {text front back : List α}
    (h : escape q text = front ++ sep :: back) : Even (front.count q) := by
  induction text generalizing front with
  | nil => cases front <;> cases h
  | cons c text ih =>
    rw [escape_cons] at h
    split at h
    · -- The two quotes are both in front of the separator.
      match front with
      | [] =>
        cases h
        exact absurd rfl hne
      | [_] =>
        cases h
        exact absurd rfl hne
      | a :: b :: front =>
        rw [List.cons_append, List.cons_append, List.cons_append, List.cons_append, List.cons.injEq,
          List.cons.injEq] at h
        obtain ⟨rfl, rfl, h⟩ := h
        have hrest := ih h
        simp only [List.count_cons_self]
        rw [Nat.add_assoc]
        exact hrest.add even_two
    · rename_i hc
      match front with
      | [] => exact Even.zero
      | a :: front =>
        rw [List.singleton_append, List.cons_append, List.cons.injEq] at h
        obtain ⟨rfl, h⟩ := h
        rw [List.count_cons_of_ne hc]
        exact ih h

/-- Separators occur within quotes only. -/
def Inside (q sep : α) (field : List α) : Prop := ∀ front back, field = front ++ sep :: back → Odd (front.count q)

/-- A quoted text without its end. -/
theorem inside_opened (hne : sep ≠ q) (text : List α) : Inside q sep (q :: escape q text) := by
  intro front back h
  cases front with
  | nil =>
    cases h
    exact absurd rfl hne
  | cons b front =>
    rw [List.cons_append, List.cons.injEq] at h
    obtain ⟨rfl, h⟩ := h
    rw [List.count_cons_self]
    exact (count_escape_front hne h).add_one

theorem odd_count_opened (q : α) (text : List α) : Odd ((q :: escape q text).count q) := by
  rw [List.count_cons_self]
  exact (count_escape q text).add_one

theorem delimited_quote (hne : sep ≠ q) (text : List α) : Delimited q sep (quote q text) := by
  constructor
  · intro front back h
    obtain ⟨mid, hmid, hback⟩ : ∃ mid, q :: escape q text = front ++ mid ∧ sep :: back = mid ++ [q] := by
      rcases List.append_eq_append_iff.mp h with ⟨mid, -, hmid⟩ | hmid
      · cases mid with
        | nil =>
          cases hmid
          exact absurd rfl hne
        | cons a mid => simp at hmid
      · exact hmid
    cases mid with
    | nil =>
      cases hback
      exact absurd rfl hne
    | cons a mid =>
      rw [List.cons_append, List.cons.injEq] at hback
      obtain ⟨rfl, -⟩ := hback
      exact inside_opened hne text front mid hmid
  · rw [quote, List.count_append, List.count_singleton_self]
    exact (odd_count_opened q text).add_one

/-- The pieces of joined fields are those of the fields. -/
theorem splitOn_intercalate {fields : List (List α)} (h : fields ≠ []) :
    ([sep].intercalate fields).splitOn sep = fields.flatMap (·.splitOn sep) := by
  induction fields with
  | nil => exact absurd rfl h
  | cons field fields ih =>
    cases fields with
    | nil => simp
    | cons next fields =>
      rw [List.intercalate_cons_cons, List.append_assoc, List.singleton_append, List.splitOn_append_cons_self,
        ih (List.cons_ne_nil _ _), ← List.flatMap_cons]

/-- Joins a piece to the last one while the quotes seen so far are not balanced. -/
def regroupStep (q sep : α) (r : List (List α) × Bool) (piece : List α) : List (List α) × Bool :=
  (if r.2 then r.1.dropLast ++ [r.1.getLastD [] ++ sep :: piece] else r.1 ++ [piece],
    r.2 != (piece.count q % 2 == 1))

/-- Undoes the splitting at separators within quotes. -/
def regroup (q sep : α) (pieces : List (List α)) : List (List α) := (pieces.foldl (regroupStep q sep) ([], false)).1

private theorem count_odd_append (hne : sep ≠ q) (front piece : List α) :
    (decide (Odd (front.count q)) != (piece.count q % 2 == 1)) = decide (Odd ((front ++ sep :: piece).count q)) := by
  rw [List.count_append, List.count_cons_of_ne hne]
  rcases Nat.mod_two_eq_zero_or_one (front.count q) with h | h <;>
    rcases Nat.mod_two_eq_zero_or_one (piece.count q) with h' | h' <;>
    simp [Nat.odd_iff, Nat.add_mod, h, h']

/-- The pieces of a field are joined to what is there already of it. -/
private theorem foldl_regroupStep (hne : sep ≠ q) (ret : List (List α)) {front : List α} {pieces : List (List α)}
    (h : Inside q sep (front ++ pieces.flatMap (sep :: ·))) :
    pieces.foldl (regroupStep q sep) (ret ++ [front], decide (Odd (front.count q))) =
      (ret ++ [front ++ pieces.flatMap (sep :: ·)],
        decide (Odd ((front ++ pieces.flatMap (sep :: ·)).count q))) := by
  induction pieces generalizing front with
  | nil => simp
  | cons piece pieces ih =>
    have hodd : Odd (front.count q) := h front (piece ++ pieces.flatMap (sep :: ·)) (by simp)
    have hrest : front ++ (piece :: pieces).flatMap (sep :: ·) =
        (front ++ sep :: piece) ++ pieces.flatMap (sep :: ·) := by simp
    rw [hrest] at h ⊢
    rw [← ih h, List.foldl_cons, regroupStep, ← count_odd_append hne front piece]
    simp [hodd]

omit [DecidableEq α] in
private theorem intercalate_cons (sep : α) (first : List α) (rest : List (List α)) :
    [sep].intercalate (first :: rest) = first ++ rest.flatMap (sep :: ·) := by
  induction rest generalizing first with
  | nil => simp
  | cons second rest ih => simp [List.intercalate_cons_cons, ih]

private theorem foldl_field (hne : sep ≠ q) (ret : List (List α)) {field : List α} (h : Inside q sep field) :
    (field.splitOn sep).foldl (regroupStep q sep) (ret, false) =
      (ret ++ [field], decide (Odd (field.count q))) := by
  obtain ⟨first, rest, hpieces⟩ := List.exists_cons_of_ne_nil (List.splitOn_ne_nil sep field)
  have hfield : field = first ++ rest.flatMap (sep :: ·) := by
    rw [← intercalate_cons, ← hpieces, List.intercalate_splitOn]
  have hstep : regroupStep q sep (ret, false) first = (ret ++ [first], decide (Odd (first.count q))) := by
    simp [regroupStep, Nat.odd_iff, beq_eq_decide]
  rw [hpieces, List.foldl_cons, hstep, hfield]
  exact foldl_regroupStep hne ret (hfield ▸ h)

/-- Blind splitting of joined fields followed by regrouping gives the fields back, even if the quotes
of the last one are still open. -/
theorem regroup_splitOn_last (hne : sep ≠ q) {fields : List (List α)} (h : ∀ field ∈ fields, Delimited q sep field)
    {last : List α} (hlast : Inside q sep last) :
    regroup q sep (([sep].intercalate (fields ++ [last])).splitOn sep) = fields ++ [last] := by
  suffices hfold : ∀ ret, ((([sep].intercalate (fields ++ [last])).splitOn sep).foldl (regroupStep q sep)
      (ret, false)).1 = ret ++ (fields ++ [last]) by
    rw [regroup, hfold, List.nil_append]
  induction fields with
  | nil =>
    intro ret
    rw [List.nil_append, List.intercalate_singleton, foldl_field hne ret hlast]
  | cons field fields ih =>
    intro ret
    have hfield := h field List.mem_cons_self
    have hrest := ih fun f hf => h f (List.mem_cons_of_mem _ hf)
    have hbalanced : decide (Odd (field.count q)) = false := by
      simpa using hfield.balanced
    obtain ⟨next, others, hothers⟩ := List.exists_cons_of_ne_nil (List.concat_ne_nil last fields)
    rw [List.cons_append, hothers, List.intercalate_cons_cons, List.append_assoc, List.singleton_append,
      List.splitOn_append_cons_self, List.foldl_append, foldl_field hne ret hfield.inside, hbalanced, ← hothers,
      hrest, List.append_assoc, List.singleton_append]

/-- Blind splitting of joined fields followed by regrouping gives the fields back. -/
theorem regroup_splitOn (hne : sep ≠ q) {fields : List (List α)} (hfields : fields ≠ [])
    (h : ∀ field ∈ fields, Delimited q sep field) :
    regroup q sep (([sep].intercalate fields).splitOn sep) = fields := by
  rw [← List.dropLast_append_getLast hfields]
  apply regroup_splitOn_last hne
  · exact fun field hfield => h field (List.dropLast_subset _ hfield)
  · exact (h _ (List.getLast_mem hfields)).inside

/-- A first piece without quotes is a field of its own. -/
theorem head?_regroup {first : List α} (hfirst : q ∉ first) (pieces : List (List α)) :
    (regroup q sep (first :: pieces)).head? = some first := by
  suffices hrun : ∀ r : List (List α) × Bool, (∃ rest, r.1 = first :: rest ∧ (r.2 = true → rest ≠ [])) →
      ∃ rest, (pieces.foldl (regroupStep q sep) r).1 = first :: rest by
    have hcount : first.count q = 0 := List.count_eq_zero.mpr hfirst
    obtain ⟨rest, hrest⟩ := hrun (regroupStep q sep ([], false) first) ⟨[], by simp [regroupStep, hcount]⟩
    rw [regroup, List.foldl_cons, hrest, List.head?_cons]
  induction pieces with
  | nil => exact fun r ⟨rest, hrest, _⟩ => ⟨rest, hrest⟩
  | cons piece pieces ih =>
    intro r ⟨rest, hrest, hopen⟩
    rw [List.foldl_cons]
    apply ih
    -- While quotes are open, there is a later piece that takes what follows.
    by_cases hflag : r.2 = true
    · refine ⟨rest.dropLast ++ [r.1.getLastD [] ++ sep :: piece], ?_, fun _ => by simp⟩
      simp only [regroupStep, hflag, if_true]
      rw [hrest, List.dropLast_cons_of_ne_nil (hopen hflag), List.cons_append]
    · refine ⟨rest ++ [piece], ?_, fun _ => by simp⟩
      simp only [regroupStep, hflag, if_false, hrest, List.cons_append, Bool.false_eq_true]

end QuotedFields
