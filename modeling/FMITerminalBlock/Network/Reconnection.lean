import FMITerminalBlock.Base.ChannelMapping
import Mathlib.Order.Basic

/-! The reconnection of the TCP client after an end of file. The loop asks the socket whether it is
open, not whether the attempt has succeeded; a socket stays open when a connection ends or fails. -/
namespace FMITerminalBlock.Network.Reconnection
open Base

/-- The state of the socket object. Only an open socket can be connected. -/
structure Socket where
  isOpen : Bool
  connected : Bool := false
  deriving DecidableEq, Repr

def Socket.close (_ : Socket) : Socket := { isOpen := false }

/-- A closed socket is opened first. It stays open if the endpoint refuses the connection. -/
def Socket.connect (_ : Socket) (accepted : Bool) : Socket := { isOpen := true, connected := accepted }

/-- `boost::asio::connect` tries the endpoints in turn, each of them on a socket that was closed
before. Without any endpoint the socket is not touched and an error is reported. -/
def connect : Socket → List Bool → Socket × Bool
  | s, [] => (s, false)
  | s, accepted :: rest =>
    let s := s.close.connect accepted
    if accepted then (s, true) else connect s rest

/-- What an attempt meets: the address is not resolved, or it stands for endpoints that accept the
connection or not. -/
inductive Attempt where
  | unresolved
  | endpoints (accepted : List Bool)
  deriving DecidableEq, Repr

def Attempt.succeeds : Attempt → Bool
  | .unresolved => false
  | .endpoints accepted => accepted.any id

/-- Whether the attempt reaches the point where a socket is opened. -/
def Attempt.opens : Attempt → Bool
  | .unresolved => false
  | .endpoints accepted => !accepted.isEmpty

def propAddr : StdString := ascii "addr"

/-- The host and the port are those of the first connection. -/
def syncConnect (host port : StdString) (s : Socket) : Attempt → Socket × Except SystemConfigurationException Unit
  | .unresolved => (s, .error {
      what := "Couldn't resolve address"
      config := some (propAddr, host ++ ascii ":" ++ port) })
  | .endpoints accepted =>
    match connect s accepted with
    | (s, true) => (s, .ok ())
    | (s, false) => (s, .error {
        what := "Couldn't connect to server"
        config := some (propAddr, host ++ ascii ":" ++ port) })

/-- The socket with what the reconnection has done so far. `errors` holds the logged exceptions. -/
structure Progress where
  socket : Socket
  attempts : Nat := 0
  sleeps : Nat := 0
  errors : List SystemConfigurationException := []

/-- The `try` block of the loop. -/
def tryConnect (host port : StdString) (p : Progress) (a : Attempt) : Progress :=
  match syncConnect host port p.socket a with
  | (socket, .ok ()) => { p with socket, attempts := p.attempts + 1 }
  | (socket, .error ex) => { p with socket, attempts := p.attempts + 1, errors := p.errors ++ [ex] }

/-- The loop of `syncReconnect` with `remaining` turns to go. The attempts are numbered by `retry`. -/
def retryLoop (host port : StdString) (reconnectionRetries : Nat) (outcomes : Nat → Attempt) :
    Nat → Progress → Progress
  | 0, p => p
  | remaining + 1, p =>
    let retry := reconnectionRetries - (remaining + 1)
    let p := tryConnect host port p (outcomes retry)
    if p.socket.isOpen then p
    else
      retryLoop host port reconnectionRetries outcomes remaining
        (if retry < reconnectionRetries - 1 then { p with sleeps := p.sleeps + 1 } else p)

def syncReconnect (host port : StdString) (reconnectionRetries : Nat) (outcomes : Nat → Attempt) (s : Socket) :
    Progress × Except String Unit :=
  let p := retryLoop host port reconnectionRetries outcomes reconnectionRetries { socket := s }
  if p.socket.isOpen then (p, .ok ()) else (p, .error "Couldn't successfully re-connect to the TCP server")

/-! ### One attempt -/

variable (host port : StdString)

theorem connect_spec (s : Socket) (accepted : List Bool) :
    (connect s accepted).2 = accepted.any id ∧
      (connect s accepted).1.isOpen = (s.isOpen || !accepted.isEmpty) := by
  induction accepted generalizing s with
  | nil => simp [connect]
  | cons first rest ih =>
    cases first with
    | true => simp [connect, Socket.connect]
    | false =>
      simpa [connect, Socket.connect] using ih (s.close.connect false)

/-- An attempt opens the socket or leaves it as it is, but it never leaves it closed behind. -/
theorem syncConnect_isOpen (s : Socket) (a : Attempt) :
    (syncConnect host port s a).1.isOpen = (s.isOpen || a.opens) := by
  cases a with
  | unresolved => simp [syncConnect, Attempt.opens]
  | endpoints accepted =>
    have hopen := (connect_spec s accepted).2
    rw [syncConnect, Attempt.opens, ← hopen]
    split <;> simp_all

theorem tryConnect_socket (p : Progress) (a : Attempt) :
    (tryConnect host port p a).socket = (syncConnect host port p.socket a).1 := by
  rw [tryConnect]
  split <;> simp_all

theorem tryConnect_attempts (p : Progress) (a : Attempt) :
    (tryConnect host port p a).attempts = p.attempts + 1 := by
  rw [tryConnect]
  split <;> rfl

/-! ### The loop -/

variable (reconnectionRetries : Nat) (outcomes : Nat → Attempt)

/-- The first attempt that finds or leaves the socket open ends the loop. -/
theorem retryLoop_of_open (remaining : Nat) (p : Progress)
    (h : (p.socket.isOpen || (outcomes (reconnectionRetries - (remaining + 1))).opens) = true) :
    retryLoop host port reconnectionRetries outcomes (remaining + 1) p =
      tryConnect host port p (outcomes (reconnectionRetries - (remaining + 1))) := by
  rw [← syncConnect_isOpen host port, ← tryConnect_socket] at h
  rw [retryLoop]
  exact if_pos h

variable {reconnectionRetries outcomes}

/-- After an end of file there is a single attempt, and the function returns whatever comes of it. -/
theorem syncReconnect_of_open {s : Socket} (hopen : s.isOpen = true) (hretries : 1 ≤ reconnectionRetries) :
    (syncReconnect host port reconnectionRetries outcomes s).1.attempts = 1 ∧
      (syncReconnect host port reconnectionRetries outcomes s).2 = .ok () := by
  obtain ⟨remaining, rfl⟩ : ∃ remaining, reconnectionRetries = remaining + 1 := ⟨reconnectionRetries - 1, by omega⟩
  have hloop := retryLoop_of_open host port (remaining + 1) outcomes remaining { socket := s } (by rw [hopen]; rfl)
  rw [Nat.sub_self] at hloop
  have hsocket : (tryConnect host port { socket := s } (outcomes 0)).socket.isOpen = true := by
    rw [tryConnect_socket, syncConnect_isOpen, hopen]
    rfl
  simp [syncReconnect, hloop, hsocket, tryConnect_attempts]

/-- What the retries are for: the attempts go on until the first success or until none is left, and
only a success lets the function return. -/
structure ReallyRetries (reconnectionRetries : Nat) (outcomes : Nat → Attempt) (result : Progress × Except String Unit) :
    Prop where
  stops : ∀ i < reconnectionRetries, (outcomes i).succeeds = true → (∀ j < i, (outcomes j).succeeds = false) →
    result.1.attempts = i + 1
  bounded : result.1.attempts ≤ reconnectionRetries
  returns : result.2 = .ok () ↔ ∃ i < reconnectionRetries, (outcomes i).succeeds = true
  throws : (∀ i < reconnectionRetries, (outcomes i).succeeds = false) →
    result.1.attempts = reconnectionRetries ∧ ∃ what, result.2 = .error what

/-- After an end of file the function retries as it should exactly if it need not retry at all. -/
theorem really_retries_iff_first_succeeds {s : Socket} (hopen : s.isOpen = true) (hretries : 1 ≤ reconnectionRetries) :
    ReallyRetries reconnectionRetries outcomes (syncReconnect host port reconnectionRetries outcomes s) ↔
      (outcomes 0).succeeds = true := by
  obtain ⟨hattempts, hreturned⟩ := @syncReconnect_of_open host port _ outcomes _ hopen hretries
  constructor
  · intro h
    -- The first success exists because the function has returned, and one attempt was made.
    have hexists := h.returns.mp hreturned
    have hfirst := Nat.find_spec hexists
    have hbefore : ∀ j < Nat.find hexists, (outcomes j).succeeds = false := by
      intro j hj
      by_contra hsucceeds
      exact Nat.find_min hexists hj ⟨hj.trans hfirst.1, by simpa using hsucceeds⟩
    have hone := h.stops _ hfirst.1 hfirst.2 hbefore
    rw [hattempts] at hone
    have hzero : Nat.find hexists = 0 := by omega
    rw [hzero] at hfirst
    exact hfirst.2
  · intro hfirst
    refine ⟨fun i _ _ hbefore => ?_, hattempts ▸ hretries, ?_, fun hnone => ?_⟩
    · have hzero : i = 0 := by
        by_contra hne
        rw [hbefore 0 (Nat.pos_of_ne_zero hne)] at hfirst
        cases hfirst
      rw [hattempts, hzero]
    · exact ⟨fun _ => ⟨0, hretries, hfirst⟩, fun _ => hreturned⟩
    · rw [hnone 0 hretries] at hfirst
      cases hfirst

/-- The server accepts the connection at once. -/
theorem really_retries_iff_first_succeeds_at_once :
    ReallyRetries 4 (fun _ => .endpoints [false, true])
      (syncReconnect (ascii "localhost") (ascii "4242") 4 (fun _ => .endpoints [false, true])
        { isOpen := true, connected := true }) :=
  (really_retries_iff_first_succeeds (ascii "localhost") (ascii "4242") rfl (by decide)).mpr rfl

/-- The server is back at the second attempt. The function makes one attempt, finds the socket open
and returns with a socket that is not connected. -/
theorem reconnection_given_up_after_refusal :
    let outcomes : Nat → Attempt := fun i => .endpoints [decide (1 ≤ i)]
    let result := syncReconnect (ascii "localhost") (ascii "4242") 4 outcomes { isOpen := true, connected := true }
    result.1.attempts = 1 ∧ result.2 = .ok () ∧ result.1.socket.connected = false ∧
      (outcomes 1).succeeds = true ∧ ¬ReallyRetries 4 outcomes result := by
  refine ⟨by decide, by decide, by decide, by decide, fun h => ?_⟩
  have htwo := h.stops 1 (by decide) (by decide) (by decide)
  exact absurd htwo (by decide)

end FMITerminalBlock.Network.Reconnection
