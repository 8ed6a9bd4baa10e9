import FMITerminalBlock.Network.CompactASN1Subscriber

/-! Where a value ends in the data: what the read functions do on complete values and on their
beginnings, and that the publisher writes complete values. -/
namespace FMITerminalBlock.Network
open Base Timing ASN1Commons

/-- The bytes hold exactly one value: it is read whatever follows, and every proper beginning is
recognized as incomplete. -/
structure Framed (bytes : List UInt8) (value : Received) : Prop where
  whole : ∀ more, readValue (bytes ++ more) = .ok (value, more)
  truncated : ∀ front back, bytes = front ++ back → front ≠ [] → back ≠ [] →
    ∃ missing, readValue front = .error ⟨.incomplete, missing⟩

theorem Framed.ne_nil {bytes : List UInt8} {value : Received} (h : Framed bytes value) : bytes ≠ [] := by
  rintro rfl
  have hwhole := h.whole []
  cases hwhole

theorem readValue_cons {tag : UInt8} {rest : List UInt8}
    {read : List UInt8 → Except ParsingStatus (Received × List UInt8)} (h : readFunction tag = some read) :
    readValue (tag :: rest) = read (tag :: rest) := by
  simp only [readValue, h]

theorem framed_number {tag : UInt8} {size : Nat} {value : Nat → Received} {body : List UInt8}
    (htag : readFunction tag = some (readNumber size value)) (hlength : body.length = size) :
    Framed (tag :: body) (value (BigEndian.decode body)) := by
  constructor
  · intro more
    rw [List.cons_append, readValue_cons htag, readNumber, if_neg (by simp; omega)]
    simp [List.drop_append, ← hlength]
  · intro front back hsplit hfront hback
    obtain ⟨byte, front, rfl⟩ := List.exists_cons_of_ne_nil hfront
    rw [List.cons_append, List.cons.injEq] at hsplit
    obtain ⟨rfl, rfl⟩ := hsplit
    have hpos := List.length_pos_iff.mpr hback
    rw [List.length_append] at hlength
    exact ⟨size + 1 - (tag :: front).length, by
      rw [readValue_cons htag, readNumber, if_pos (by simp; omega)]⟩

theorem framed_boolean {tag : UInt8} {value : UInt8}
    (htag : readFunction tag = some fun buffer => .ok (.bool value, buffer.drop 1)) :
    Framed [tag] (.bool value) := by
  constructor
  · intro more
    rw [List.singleton_append, readValue_cons htag]
    rfl
  · intro front back hsplit hfront hback
    have hlength := congrArg List.length hsplit
    have hf := List.length_pos_iff.mpr hfront
    have hb := List.length_pos_iff.mpr hback
    rw [List.length_singleton, List.length_append] at hlength
    omega

theorem framed_string {header text : List UInt8} (hheader : header.length = 2)
    (hlength : BigEndian.decode header = text.length) :
    Framed ((classApplication ||| stringTagNr) :: header ++ text) (.string text) := by
  have htag : readFunction (classApplication ||| stringTagNr) = some readSTRINGVariable := rfl
  constructor
  · intro more
    have hdecode (rest : List UInt8) : BigEndian.decode ((header ++ rest).take 2) = text.length := by
      rw [← hheader, List.take_left, hlength]
    rw [List.cons_append, List.cons_append, List.append_assoc, readValue_cons htag, readSTRINGVariable,
      if_neg (by simp; omega)]
    simp only [List.drop_one, List.tail_cons, hdecode]
    rw [if_neg (by simp; omega)]
    have hdrop : List.drop 3 ((classApplication ||| stringTagNr) :: (header ++ (text ++ more))) = text ++ more := by
      rw [List.drop_succ_cons, ← hheader, List.drop_left]
    rw [← List.drop_drop, hdrop, List.take_left, List.drop_left]
  · intro front back hsplit hfront hback
    obtain ⟨byte, front, rfl⟩ := List.exists_cons_of_ne_nil hfront
    rw [List.cons_append, List.cons_append, List.cons.injEq] at hsplit
    obtain ⟨rfl, hsplit⟩ := hsplit
    have hpos := List.length_pos_iff.mpr hback
    have htotal := congrArg List.length hsplit
    rw [List.length_append, List.length_append] at htotal
    by_cases hshort : front.length < 2
    · exact ⟨3 - (front.length + 1), by
        rw [readValue_cons htag, readSTRINGVariable, if_pos (by simp; omega), List.length_cons]⟩
    · -- The length field is complete, so it is the one of the whole value.
      have hfield : front.take 2 = header := by
        have htake := congrArg (List.take 2) hsplit
        rwa [← hheader, List.take_left, List.take_append_of_le_length (by omega), eq_comm, hheader] at htake
      refine ⟨3 + text.length - (front.length + 1), ?_⟩
      rw [readValue_cons htag, readSTRINGVariable, if_neg (by simp; omega)]
      simp only [List.drop_one, List.tail_cons, hfield, hlength, List.length_cons]
      rw [if_pos (by omega)]

/-- One complete value with a supported tag: the tag and as many bytes as it demands. -/
inductive WireValue : List UInt8 → Prop where
  | lreal {body} : body.length = 8 → WireValue ((classApplication ||| lrealTagNr) :: body)
  | real {body} : body.length = 4 → WireValue ((classApplication ||| realTagNr) :: body)
  | dint {body} : body.length = 4 → WireValue ((classApplication ||| dintTagNr) :: body)
  | bool0 : WireValue [classApplication ||| bool0TagNr]
  | bool1 : WireValue [classApplication ||| bool1TagNr]
  | string {header text} : header.length = 2 → BigEndian.decode header = text.length →
      WireValue ((classApplication ||| stringTagNr) :: header ++ text)

theorem WireValue.exists_framed {bytes : List UInt8} (h : WireValue bytes) : ∃ value, Framed bytes value := by
  cases h with
  | lreal hlength => exact ⟨_, framed_number rfl hlength⟩
  | real hlength => exact ⟨_, framed_number rfl hlength⟩
  | dint hlength => exact ⟨_, framed_number rfl hlength⟩
  | bool0 => exact ⟨_, framed_boolean rfl⟩
  | bool1 => exact ⟨_, framed_boolean rfl⟩
  | string hheader hlength => exact ⟨_, framed_string hheader hlength⟩

/-- The values one after the other, each with what is read from it. -/
theorem exists_blocks {values : List (List UInt8)} (h : ∀ bytes ∈ values, WireValue bytes) :
    ∃ blocks : List (List UInt8 × Received), blocks.flatMap Prod.fst = values.flatten ∧
      ∀ block ∈ blocks, Framed block.1 block.2 := by
  induction values with
  | nil => exact ⟨[], rfl, List.forall_mem_nil _⟩
  | cons bytes values ih =>
    obtain ⟨blocks, hblocks, hframed⟩ := ih fun other hother => h other (List.mem_cons_of_mem bytes hother)
    obtain ⟨value, hvalue⟩ := (h bytes List.mem_cons_self).exists_framed
    refine ⟨(bytes, value) :: blocks, by rw [List.flatMap_cons, hblocks, List.flatten_cons], ?_⟩
    exact List.forall_mem_cons.mpr ⟨hvalue, hframed⟩

/-- Bytes that a complete value with a supported tag goes on with. -/
def ProperBeginning (bytes : List UInt8) : Prop := ∃ back, WireValue (bytes ++ back) ∧ back ≠ []

/-! ### Data that holds no complete value -/

def supportedTags : List UInt8 :=
  [classApplication ||| lrealTagNr, classApplication ||| realTagNr, classApplication ||| stringTagNr,
    classApplication ||| bool0TagNr, classApplication ||| bool1TagNr, classApplication ||| dintTagNr]

theorem readFunction_eq_none {tag : UInt8} : readFunction tag = none ↔ tag ∉ supportedTags := by
  unfold readFunction
  split_ifs <;> simp_all [supportedTags]

theorem readValue_unsupported {tag : UInt8} (h : tag ∉ supportedTags) (rest : List UInt8) :
    readValue (tag :: rest) = .error ⟨.invalidBufferContent, 0⟩ := by
  simp only [readValue, readFunction_eq_none.mpr h]

private theorem properBeginning_number {size : Nat} {make : Nat → Received} {tag : UInt8} {body : List UInt8}
    {status : ParsingStatus} (hvalue : ∀ full : List UInt8, full.length = size → WireValue (tag :: full))
    (h : readNumber size make (tag :: body) = .error status) : ProperBeginning (tag :: body) := by
  unfold readNumber at h
  split at h
  · rename_i hshort
    rw [List.length_cons] at hshort
    refine ⟨List.replicate (size - body.length) 0, ?_, ?_⟩
    · rw [List.cons_append]
      apply hvalue
      rw [List.length_append, List.length_replicate]
      omega
    · rw [List.ne_nil_iff_length_pos, List.length_replicate]
      omega
  · cases h

/-- The length field is completed with zeros, and then the text. -/
private theorem properBeginning_string {body : List UInt8} {status : ParsingStatus}
    (h : readSTRINGVariable ((classApplication ||| stringTagNr) :: body) = .error status) :
    ProperBeginning ((classApplication ||| stringTagNr) :: body) := by
  unfold readSTRINGVariable at h
  dsimp only at h
  rw [List.drop_one, List.tail_cons, List.length_cons] at h
  by_cases hheader : body.length < 2
  · have hlength : (body ++ List.replicate (2 - body.length) (0 : UInt8)).length = 2 := by
      rw [List.length_append, List.length_replicate]
      omega
    refine ⟨List.replicate (2 - body.length) 0 ++ List.replicate
      (BigEndian.decode (body ++ List.replicate (2 - body.length) 0)) 0, ?_, ?_⟩
    · have hvalue := WireValue.string hlength (List.length_replicate (a := (0 : UInt8))).symm
      rwa [List.cons_append, List.append_assoc] at hvalue
    · apply List.append_ne_nil_of_left_ne_nil
      rw [List.ne_nil_iff_length_pos, List.length_replicate]
      omega
  · rw [if_neg (by omega)] at h
    split at h
    · rename_i hshort
      have hlength : (body.take 2).length = 2 := List.length_take_of_le (by omega)
      refine ⟨List.replicate (BigEndian.decode (body.take 2) - (body.drop 2).length) 0, ?_, ?_⟩
      · have htext : BigEndian.decode (body.take 2) = (body.drop 2 ++
            List.replicate (BigEndian.decode (body.take 2) - (body.drop 2).length) (0 : UInt8)).length := by
          rw [List.length_append, List.length_replicate, List.length_drop]
          omega
        have hvalue := WireValue.string hlength htext
        rwa [List.cons_append, ← List.append_assoc, List.take_append_drop, ← List.cons_append] at hvalue
      · rw [List.ne_nil_iff_length_pos, List.length_replicate, List.length_drop]
        omega
    · cases h

/-- Incomplete data is the beginning of a value. -/
theorem properBeginning_of_incomplete {buffer : List UInt8} {missing : Nat} (hne : buffer ≠ [])
    (h : readValue buffer = .error ⟨.incomplete, missing⟩) : ProperBeginning buffer := by
  obtain ⟨tag, body, rfl⟩ := List.exists_cons_of_ne_nil hne
  cases hread : readFunction tag with
  | none =>
    simp only [readValue, hread] at h
    cases h
  | some read =>
    rw [readValue_cons hread] at h
    unfold readFunction at hread
    split_ifs at hread <;> cases hread <;> subst tag
    · exact properBeginning_number (fun _ => .lreal) h
    · exact properBeginning_number (fun _ => .real) h
    · exact properBeginning_string h
    · cases h
    · cases h
    · exact properBeginning_number (fun _ => .dint) h

end FMITerminalBlock.Network
