import IouringRuntime.Reentrant.Machine
import Mathlib.Data.List.Perm.Basic

/-!
# What happens to the plaintext

`SendProxyPayload` and `FlushPendingPlaintext` of `TlsProxyPeerSession` for every
result that `SSL_write_ex` can give, where `TlsPeer` has it accept the whole
buffer. `FlushCiphertextOutput` is the environment here: it ends in the session's
`Send`, and before it returns the bridge may call in again.

A call that meets `SSL_ERROR_WANT_READ` or `SSL_ERROR_WANT_WRITE` returns what
`FlushCiphertextOutput` gives, with the rest of its buffer neither written nor
kept. `plaintext_ledger` accounts for every byte: those that a call has missed are
in its report, and a call that returns `true` misses none exactly if it met no
such result. The bytes are of an arbitrary type, so equal ones can be told apart.
-/

namespace IouringRuntime

open Reentrant

/-- `SSL_write_ex`; `wrote n` is for `n + 1` bytes. -/
inductive SslWriteResult where
  | wrote (n : Nat)
  | wantRead
  | wantWrite
  | failed
  deriving DecidableEq, Repr

/-- What the environment decides for one segment. -/
structure WriteOutcome where
  disconnecting : Bool := false
  backpressureActive : Bool := false
  write : SslWriteResult := .wrote 0
  deriving DecidableEq, Repr

/-- The call that `EncryptAndQueuePlaintext` works for: `FlushPendingPlaintext`
comes with what it has missed so far, and whether it has met a `WANT` result. -/
inductive EncryptCaller (β : Type) where
  | send
  | flush (missing : List β) (wanted : Bool)
  deriving DecidableEq, Repr

inductive WriteInstr (β : Type) where
  /-- `EncryptAndQueuePlaintext` behind the `FlushCiphertextOutput` of its loop. -/
  | written (rest : List β) (k : EncryptCaller β)
  /-- The same behind a `WANT` result. -/
  | wanted (rest : List β) (k : EncryptCaller β)
  /-- The same behind its loop. -/
  | finished (k : EncryptCaller β)
  /-- The loop of `FlushPendingPlaintext`. -/
  | flushLoop (missing : List β) (wanted : Bool)
  deriving DecidableEq, Repr

inductive WriteCallback where
  | flushCiphertextOutput
  deriving DecidableEq, Repr

inductive WriteApi (β : Type) where
  | completeHandshake
  | sendProxyPayload (data : List β)
  | flushPendingPlaintext
  deriving DecidableEq, Repr

/-- A call that has returned: what, the bytes it has neither written nor kept, and
whether it met a `WANT` result. -/
structure WriteReport (β : Type) where
  ok : Bool
  missing : List β
  wanted : Bool
  deriving DecidableEq, Repr

/-- The fields from `given` on are history. -/
structure TlsWriter (β : Type) where
  pendingPlaintextLimit : Nat
  handshakeComplete : Bool := false
  pendingPlaintextBytes : Nat := 0
  pendingPlaintext : List (List β) := []
  /-- What `FlushCiphertextOutput` has returned. -/
  ok : Bool := true
  given : List β := []
  written : List β := []
  reports : List (WriteReport β) := []
  deriving DecidableEq, Repr

abbrev WFrame (β : Type) := Frame (WriteInstr β) WriteCallback
abbrev WSeg (β : Type) := TlsWriter β × List (WFrame β)
abbrev WConf (β : Type) := Conf (TlsWriter β) (WriteInstr β) WriteCallback
abbrev WInput (β : Type) := Input (WriteApi β) Empty WriteOutcome

namespace TlsWriter

variable {β : Type}

/-- The call returns. -/
def report (x : TlsWriter β) (ok : Bool) (missing : List β) (wanted : Bool) : WSeg β :=
  ({ x with reports := x.reports ++ [⟨ok, missing, wanted⟩] }, [])

/-- `EncryptAndQueuePlaintext` returns to its caller. -/
def encryptReturns (x : TlsWriter β) (ok : Bool) (rest : List β) (wanted : Bool) :
    EncryptCaller β → WSeg β
  | .send => x.report ok rest wanted
  | .flush missing wanted' =>
    if !ok then x.report false (missing ++ rest) (wanted' || wanted)
    else (x, [.code (.flushLoop (missing ++ rest) (wanted' || wanted))])

/-- One round of its loop. -/
def encryptLoop (o : WriteOutcome) (x : TlsWriter β) (data : List β) (k : EncryptCaller β) :
    WSeg β :=
  match o.write with
  | .wrote n =>
    ({ x with written := x.written ++ data.take (n + 1) },
      [.callback .flushCiphertextOutput, .code (.written (data.drop (n + 1)) k)])
  | .wantRead | .wantWrite => (x, [.callback .flushCiphertextOutput, .code (.wanted data k)])
  | .failed => x.encryptReturns false data false k

def encryptAndQueuePlaintext (o : WriteOutcome) (x : TlsWriter β) (data : List β)
    (k : EncryptCaller β) : WSeg β :=
  if data.isEmpty then x.encryptReturns true [] false k else encryptLoop o x data k

def queuePendingPlaintext (x : TlsWriter β) (data : List β) : WSeg β :=
  let nextSize := x.pendingPlaintextBytes + data.length
  if x.pendingPlaintextLimit ≠ 0 ∧ nextSize > x.pendingPlaintextLimit then x.report false data false
  else
    report { x with
      pendingPlaintextBytes := nextSize
      pendingPlaintext := x.pendingPlaintext ++ [data] } true [] false

/-- The loop of `FlushPendingPlaintext`. -/
def flushLoop (o : WriteOutcome) (x : TlsWriter β) (missing : List β) (wanted : Bool) : WSeg β :=
  match x.pendingPlaintext with
  | [] => x.report true missing wanted
  | chunk :: rest =>
    if o.backpressureActive then x.report true missing wanted
    else
      encryptAndQueuePlaintext o
        { x with
          pendingPlaintext := rest
          pendingPlaintextBytes := x.pendingPlaintextBytes - chunk.length }
        chunk (.flush missing wanted)

def flushPendingPlaintext (o : WriteOutcome) (x : TlsWriter β) : WSeg β :=
  if !x.handshakeComplete || x.pendingPlaintext.isEmpty then x.report true [] false
  else flushLoop o x [] false

def sendProxyPayload (o : WriteOutcome) (x : TlsWriter β) (data : List β) : WSeg β :=
  let x := { x with given := x.given ++ data }
  if o.disconnecting then x.report false data false
  else if !x.handshakeComplete then x.queuePendingPlaintext data
  else if o.backpressureActive then x.queuePendingPlaintext data
  else encryptAndQueuePlaintext o x data .send

def exec (o : WriteOutcome) (x : TlsWriter β) : WriteInstr β → WSeg β
  | .written rest k =>
    if !x.ok then x.encryptReturns false rest false k
    else if rest.isEmpty then (x, [.callback .flushCiphertextOutput, .code (.finished k)])
    else encryptLoop o x rest k
  | .wanted rest k => x.encryptReturns x.ok rest true k
  | .finished k => x.encryptReturns x.ok [] false k
  | .flushLoop missing wanted => flushLoop o x missing wanted

def call (o : WriteOutcome) (x : TlsWriter β) : WriteApi β → WSeg β
  | .completeHandshake => ({ x with handshakeComplete := true }, [])
  | .sendProxyPayload data => x.sendProxyPayload o data
  | .flushPendingPlaintext => x.flushPendingPlaintext o

def machine : Machine (TlsWriter β) (WriteInstr β) WriteCallback (WriteApi β) Empty WriteOutcome where
  exec := exec
  call := call
  event _ _ e := e.elim
  ret x _ b := { x with ok := b }

def initialConf (limit : Nat) : WConf β := ⟨{ pendingPlaintextLimit := limit }, []⟩

/-! ## The ledger -/

/-- What the caller has missed so far. -/
def callerMissing : EncryptCaller β → List β
  | .send => []
  | .flush missing _ => missing

/-- What a call that has not returned holds. -/
def frameBytes : WFrame β → List β
  | .code (.written rest k) | .code (.wanted rest k) => rest ++ callerMissing k
  | .code (.finished k) => callerMissing k
  | .code (.flushLoop missing _) => missing
  | .callback _ => []

def inProgress (st : List (WFrame β)) : List β := st.flatMap frameBytes

def missing (x : TlsWriter β) : List β := x.reports.flatMap WriteReport.missing

/-- A call that returns `true` misses nothing exactly if it met no `WANT` result. -/
def Exact (r : WriteReport β) : Prop := r.ok = true → (r.missing = [] ↔ r.wanted = false)

def CallerExact : EncryptCaller β → Prop
  | .send => True
  | .flush missing wanted => missing = [] ↔ wanted = false

def FrameExact : WFrame β → Prop
  | .code (.written _ k) | .code (.finished k) => CallerExact k
  | .code (.wanted rest k) => rest ≠ [] ∧ CallerExact k
  | .code (.flushLoop missing wanted) => missing = [] ↔ wanted = false
  | .callback _ => True

/-- `pending_plaintext_bytes_` is the size of what is queued. -/
def Counted (x : TlsWriter β) : Prop :=
  x.pendingPlaintextBytes = x.pendingPlaintext.flatten.length

/-- Every byte given is written, queued, in the hands of a call or missed by one. -/
structure Ledger (x : TlsWriter β) (st : List (WFrame β)) : Prop where
  counted : Counted x
  bytes : x.given.Perm (x.written ++ x.pendingPlaintext.flatten ++ inProgress st ++ missing x)
  reports : ∀ r ∈ x.reports, Exact r

section Bytes

variable [DecidableEq β]

def settled (x : TlsWriter β) (b : β) : Nat :=
  x.written.count b + x.pendingPlaintext.flatten.count b + (missing x).count b

/-- What a segment makes of the bytes in its hands. -/
structure Puts (x : TlsWriter β) (hand : List β) (r : WSeg β) : Prop where
  given : r.1.given = x.given
  bytes : ∀ b, settled r.1 b + (inProgress r.2).count b = settled x b + hand.count b
  counted : Counted x → Counted r.1
  reports : (∀ r ∈ x.reports, Exact r) → ∀ r' ∈ r.1.reports, Exact r'
  frames : ∀ f ∈ r.2, FrameExact f

variable {o : WriteOutcome} {x : TlsWriter β} {rest data : List β} {k : EncryptCaller β}

theorem puts_report {ok wanted : Bool} (h : Exact ⟨ok, data, wanted⟩) :
    Puts x data (x.report ok data wanted) where
  given := rfl
  bytes b := by
    simp [report, settled, missing, inProgress]
    omega
  counted := id
  reports h0 := by
    simp only [report, List.forall_mem_append, List.forall_mem_singleton]
    exact ⟨h0, h⟩
  frames f hf := by cases hf

theorem puts_encryptReturns {ok wanted : Bool} (hk : CallerExact k)
    (h : ok = true → (rest = [] ↔ wanted = false)) :
    Puts x (callerMissing k ++ rest) (x.encryptReturns ok rest wanted k) := by
  cases k with
  | send => exact puts_report h
  | flush missing wanted' =>
    cases ok with
    | false => exact puts_report fun hok => by cases hok
    | true =>
      refine ⟨rfl, fun b => ?_, id, id, fun f hf => ?_⟩
      · simp [encryptReturns, inProgress, frameBytes, callerMissing]
      · cases List.mem_singleton.1 hf
        show missing ++ rest = [] ↔ (wanted' || wanted) = false
        rw [List.append_eq_nil_iff, Bool.or_eq_false_iff, show _ ↔ _ from hk, h rfl]

theorem puts_encryptLoop (hk : CallerExact k) (hdata : data ≠ []) :
    Puts x (callerMissing k ++ data) (encryptLoop o x data k) := by
  unfold encryptLoop
  split
  · next n _ =>
    refine ⟨rfl, fun b => ?_, id, id, ?_⟩
    · have hcut : data.count b = (data.take (n + 1)).count b + (data.drop (n + 1)).count b := by
        rw [← List.count_append, List.take_append_drop]
      simp [settled, missing, inProgress, frameBytes]
      omega
    · simp [FrameExact, hk]
  · refine ⟨rfl, fun b => ?_, id, id, ?_⟩
    · simp [inProgress, frameBytes]
      omega
    · simp [FrameExact, hk, hdata]
  · refine ⟨rfl, fun b => ?_, id, id, ?_⟩
    · simp [inProgress, frameBytes]
      omega
    · simp [FrameExact, hk, hdata]
  · exact puts_encryptReturns hk fun hok => by cases hok

theorem puts_encryptAndQueuePlaintext (data : List β) (hk : CallerExact k) :
    Puts x (callerMissing k ++ data) (encryptAndQueuePlaintext o x data k) := by
  unfold encryptAndQueuePlaintext
  split
  · next hempty =>
    rw [List.isEmpty_iff.1 hempty]
    exact puts_encryptReturns hk fun _ => iff_of_true rfl rfl
  · next hdata => exact puts_encryptLoop hk fun he => hdata (List.isEmpty_iff.2 he)

theorem puts_flushLoop {lost : List β} {wanted : Bool} (h : lost = [] ↔ wanted = false)
    (hc : Counted x) : Puts x lost (flushLoop o x lost wanted) := by
  unfold flushLoop
  split
  · exact puts_report fun _ => h
  · next chunk rest hp =>
    split
    · exact puts_report fun _ => h
    · have hput := puts_encryptAndQueuePlaintext (o := o) (x := { x with
          pendingPlaintext := rest
          pendingPlaintextBytes := x.pendingPlaintextBytes - chunk.length })
        (k := .flush lost wanted) chunk h
      refine ⟨hput.given, fun b => ?_, fun _ => hput.counted ?_, hput.reports, hput.frames⟩
      · rw [hput.bytes b]
        simp [settled, missing, callerMissing, hp]
        omega
      · simp only [Counted, hp, List.flatten_cons, List.length_append] at hc ⊢
        omega

theorem puts_queuePendingPlaintext : Puts x data (x.queuePendingPlaintext data) := by
  unfold queuePendingPlaintext
  dsimp only
  split
  · exact puts_report fun hok => by cases hok
  · refine ⟨rfl, fun b => ?_, fun hc => ?_, fun h0 => ?_, fun f hf => by cases hf⟩
    · simp [report, settled, missing, inProgress]
      omega
    · simp only [Counted, report, List.flatten_append, List.length_append, List.flatten_singleton]
        at hc ⊢
      rw [hc]
    · simp only [report, List.forall_mem_append, List.forall_mem_singleton]
      exact ⟨h0, fun _ => iff_of_true rfl rfl⟩

theorem puts_sendProxyPayload (x : TlsWriter β) (data : List β) :
    Puts { x with given := x.given ++ data } data (x.sendProxyPayload o data) := by
  unfold sendProxyPayload
  dsimp only
  split
  · exact puts_report fun hok => by cases hok
  · split
    · exact puts_queuePendingPlaintext
    · split
      · exact puts_queuePendingPlaintext
      · exact puts_encryptAndQueuePlaintext (k := .send) data trivial

theorem puts_flushPendingPlaintext (hc : Counted x) : Puts x [] (x.flushPendingPlaintext o) := by
  unfold flushPendingPlaintext
  split
  · exact puts_report fun _ => iff_of_true rfl rfl
  · exact puts_flushLoop (iff_of_true rfl rfl) hc

theorem puts_exec {i : WriteInstr β} (hi : FrameExact (.code i)) (hc : Counted x) :
    ∃ hand, hand.Perm (frameBytes (.code i)) ∧ Puts x hand (exec o x i) := by
  cases i with
  | written rest k =>
    refine ⟨callerMissing k ++ rest, List.perm_append_comm, ?_⟩
    simp only [exec]
    split
    · exact puts_encryptReturns hi fun hok => by cases hok
    · split
      · next hempty =>
        rw [List.isEmpty_iff.1 hempty]
        refine ⟨rfl, fun b => ?_, id, id, ?_⟩
        · simp [inProgress, frameBytes]
        · simpa [FrameExact] using hi
      · next hrest => exact puts_encryptLoop hi fun he => hrest (List.isEmpty_iff.2 he)
  | wanted rest k =>
    refine ⟨callerMissing k ++ rest, List.perm_append_comm, puts_encryptReturns hi.2 fun _ => ?_⟩
    exact iff_of_false hi.1 fun hw => by cases hw
  | finished k =>
    refine ⟨callerMissing k ++ [], by rw [List.append_nil]; exact .refl _, puts_encryptReturns hi fun _ => ?_⟩
    exact iff_of_true rfl rfl
  | flushLoop lost wanted => exact ⟨lost, .refl _, puts_flushLoop hi hc⟩

/-- The bytes in a segment's hands go where it puts them. -/
theorem Puts.ledger {hand : List β} {r : WSeg β} {st : List (WFrame β)} (h : Puts x hand r)
    (hc : Counted x) (hr : ∀ r ∈ x.reports, Exact r)
    (hb : x.given.Perm (x.written ++ x.pendingPlaintext.flatten ++ (hand ++ inProgress st) ++
      missing x)) :
    Ledger r.1 (r.2 ++ st) where
  counted := h.counted hc
  reports := h.reports hr
  bytes := by
    refine List.perm_iff_count.2 fun b => ?_
    have hx := hb.count_eq b
    have hput := h.bytes b
    rw [h.given]
    simp only [settled, inProgress, List.flatMap_append, List.count_append] at hx hput ⊢
    omega

theorem ledger_preserved :
    (machine (β := β)).Preserved fun x st => Ledger x st ∧ ∀ f ∈ st, FrameExact f where
  exec o x i st h := by
    obtain ⟨hL, hframes⟩ := h
    rw [List.forall_mem_cons] at hframes
    obtain ⟨hand, hhand, hput⟩ := puts_exec (o := o) hframes.1 hL.counted
    refine ⟨hput.ledger hL.counted hL.reports (hL.bytes.trans ?_), ?_⟩
    · exact (((hhand.symm.append_right _).append_left _).append_right _)
    · exact List.forall_mem_append.2 ⟨hput.frames, hframes.2⟩
  call o x a st _ h := by
    obtain ⟨hL, hframes⟩ := h
    cases a with
    | completeHandshake => exact ⟨⟨hL.counted, hL.bytes, hL.reports⟩, hframes⟩
    | sendProxyPayload data =>
      have hput := puts_sendProxyPayload (o := o) x data
      refine ⟨hput.ledger hL.counted hL.reports ?_, List.forall_mem_append.2 ⟨hput.frames, hframes⟩⟩
      refine List.perm_iff_count.2 fun b => ?_
      have hx := hL.bytes.count_eq b
      simp only [List.count_append, missing] at hx ⊢
      omega
    | flushPendingPlaintext =>
      have hput := puts_flushPendingPlaintext (o := o) hL.counted
      exact ⟨hput.ledger hL.counted hL.reports hL.bytes,
        List.forall_mem_append.2 ⟨hput.frames, hframes⟩⟩
  ret x k b st h := ⟨⟨h.1.counted, h.1.bytes, h.1.reports⟩, (List.forall_mem_cons.1 h.2).2⟩
  event _ _ e := e.elim

/-- In every run every byte given is accounted for, the counter is right, and a call
that has returned `true` misses bytes exactly if `SSL_write_ex` asked it to wait. -/
theorem plaintext_ledger {limit : Nat} {c : WConf β} (hc : machine.Reachable (initialConf limit) c) :
    Ledger c.state c.stack := by
  refine (ledger_preserved.reachable hc ⟨⟨rfl, .refl _, fun r hr => ?_⟩, fun f hf => ?_⟩).1
  · cases hr
  · cases hf

end Bytes

/-- A payload written in two pieces. -/
def twoPieces : List (WInput UInt8) :=
  [.call {} .completeHandshake, .call { write := .wrote 0 } (.sendProxyPayload [1, 2, 3]), .ret true,
    .exec { write := .wrote 1 }, .ret true, .exec {}, .ret true, .exec {}]

theorem plaintext_ledger_two_pieces :
    ∃ c : WConf UInt8, machine.Reachable (initialConf 0) c ∧ c.state.written = [1, 2, 3] ∧
      c.state.reports = [⟨true, [], false⟩] ∧ Ledger c.state c.stack := by
  obtain ⟨c, hrun, hw, hr⟩ : ∃ c, machine.run (initialConf 0) twoPieces = some c ∧
      c.state.written = [1, 2, 3] ∧ c.state.reports = [⟨true, [], false⟩] := ⟨_, rfl, rfl, rfl⟩
  have hc := Trace.Reachable.of_run _ hrun
  exact ⟨c, hc, hw, hr, plaintext_ledger hc⟩

/-- One byte is written, then `SSL_write_ex` asks for input: the call returns `true`,
and the other two bytes are nowhere. -/
theorem want_read_loses_rest :
    ∃ c, machine.run (initialConf 0)
        [.call {} .completeHandshake, .call { write := .wrote 0 } (.sendProxyPayload [1, 2, 3]),
          .ret true, .exec { write := .wantRead }, .ret true, .exec {}] = some c ∧
      c.stack = [] ∧ c.state.given = [1, 2, 3] ∧ c.state.written = [(1 : UInt8)] ∧
      c.state.pendingPlaintext = [] ∧ c.state.reports = [⟨true, [2, 3], true⟩] :=
  ⟨_, rfl, rfl, rfl, rfl, rfl, rfl⟩

end TlsWriter

end IouringRuntime
