import IouringRuntime.Activity.Session
import IouringRuntime.Reentrant.Trace

/-!
# The request loop of the activity server

A request is `header_end + 4 + Content-Length` bytes long, and `TryParseHttp`
computes that number modulo 2^64. When it wraps, the buffer is cut somewhere
else (`exact_iff`), possibly nowhere at all: the loop then meets the same request
again and again (`processHttpBuffer_wrapping`). Without a wrap every request
takes at least four bytes away, and the loop ends in time
(`request_loop_progress`).
-/

namespace IouringRuntime

open Search

namespace ActivityServer

/-- The position of the empty line and the body length that the header block in
front of it announces. -/
def announced (buffer : Bytes) : Option (Nat × Nat) :=
  (cut (crlf ++ crlf) buffer).bind fun x => (parseHead x.1).bodyLen.map fun len => (x.1.length, len)

/-- The sum wraps, and what it wraps to is buffered. -/
def Wraps (buffer : Bytes) : Prop :=
  ∃ headerEnd bodyLen, announced buffer = some (headerEnd, bodyLen) ∧
    0x10000000000000000 ≤ headerEnd + 4 + bodyLen ∧
    (headerEnd + 4 + bodyLen) % 0x10000000000000000 ≤ buffer.length

namespace ActivitySession

/-- A request that `TryParseHttp` returns takes exactly its bytes off the buffer,
and its body is what follows the header block. -/
def Exact (s : ActivitySession) : Prop :=
  ∀ t req, s.tryParseHttp = (t, some req) → ∀ headerEnd bodyLen,
    announced s.httpBuffer = some (headerEnd, bodyLen) →
    headerEnd + 4 + bodyLen ≤ s.httpBuffer.length ∧
    t.httpBuffer = s.httpBuffer.drop (headerEnd + 4 + bodyLen) ∧
    req.body = (s.httpBuffer.drop (headerEnd + 4)).take bodyLen

/-- One turn of the loop of `ProcessHttpBuffer`, if it goes on. -/
def turn (env : ActivityEnv) (s : ActivitySession) : Option ActivitySession :=
  match s.tryParseHttp with
  | (_, none) => none
  | (t, some req) => if (t.handleHttp env req).stops env then none else some (t.handleHttp env req)

/-! ## One call -/

section TryParse

variable {s t : ActivitySession} {req : HttpRequest} {headerEnd bodyLen : Nat}

theorem tryParseHttp_some (h : s.tryParseHttp = (t, some req)) :
    ∃ headerEnd bodyLen, announced s.httpBuffer = some (headerEnd, bodyLen) ∧
      (headerEnd + 4 + bodyLen) % 0x10000000000000000 ≤ s.httpBuffer.length ∧
      t = { s with httpBuffer :=
        s.httpBuffer.drop ((headerEnd + 4 + bodyLen) % 0x10000000000000000) } ∧
      req.body = (s.httpBuffer.drop (headerEnd + 4)).take bodyLen := by
  unfold tryParseHttp at h
  split at h
  · split at h <;> cases h
  · next head rest hcut =>
    split at h
    · cases h
    · next len hlen =>
      dsimp only at h
      split at h
      · cases h
      · next hsize =>
        cases h
        exact ⟨head.length, len, by simp [announced, hcut, hlen], by omega, rfl, rfl⟩

/-- A request that is complete, as the code reckons it, is returned. -/
theorem tryParseHttp_complete {head rest : Bytes}
    (hcut : cut (crlf ++ crlf) s.httpBuffer = some (head, rest))
    (hlen : (parseHead head).bodyLen = some bodyLen)
    (hle : (head.length + 4 + bodyLen) % 0x10000000000000000 ≤ s.httpBuffer.length) :
    s.tryParseHttp =
      ({ s with httpBuffer :=
          s.httpBuffer.drop ((head.length + 4 + bodyLen) % 0x10000000000000000) },
        some { parseHead head with
          body := (s.httpBuffer.drop (head.length + 4)).take bodyLen }) := by
  rw [tryParseHttp, hcut]
  dsimp only
  rw [hlen]
  dsimp only
  rw [if_neg (Nat.not_lt.2 hle)]

theorem tryParseHttp_of_announced (h : announced s.httpBuffer = some (headerEnd, bodyLen))
    (hle : (headerEnd + 4 + bodyLen) % 0x10000000000000000 ≤ s.httpBuffer.length) :
    ∃ t req, s.tryParseHttp = (t, some req) := by
  obtain ⟨⟨head, rest⟩, hcut, h⟩ := Option.bind_eq_some_iff.1 h
  obtain ⟨len, hlen, he⟩ := Option.map_eq_some_iff.1 h
  cases he
  exact ⟨_, _, tryParseHttp_complete hcut hlen hle⟩

theorem exact_iff (s : ActivitySession) : Exact s ↔ ¬ Wraps s.httpBuffer := by
  constructor
  · rintro hexact ⟨headerEnd, bodyLen, hann, hwrap, hle⟩
    obtain ⟨t, req, htry⟩ := tryParseHttp_of_announced hann hle
    obtain ⟨hsize, hdrop, -⟩ := hexact t req htry headerEnd bodyLen hann
    obtain ⟨_, _, hann', -, rfl, -⟩ := tryParseHttp_some htry
    cases hann.symm.trans hann'
    -- the wrapped total takes fewer bytes away
    have hlen := congrArg List.length hdrop
    have hlt := Nat.mod_lt (headerEnd + 4 + bodyLen) (by decide : 0 < 0x10000000000000000)
    simp only [List.length_drop] at hlen
    omega
  · intro hno t req htry headerEnd bodyLen hann
    obtain ⟨_, _, hann', hle, rfl, hbody⟩ := tryParseHttp_some htry
    cases hann.symm.trans hann'
    have hlt : headerEnd + 4 + bodyLen < 0x10000000000000000 := by
      by_contra hge
      exact hno ⟨headerEnd, bodyLen, hann, by omega, hle⟩
    rw [Nat.mod_eq_of_lt hlt] at hle ⊢
    exact ⟨hle, rfl, hbody⟩

end TryParse

/-! ## The loop -/

theorem httpBuffer_handleHttp (env : ActivityEnv) (s : ActivitySession) (req : HttpRequest) :
    (s.handleHttp env req).httpBuffer = s.httpBuffer := by
  unfold handleHttp upgradeWebSocket
  split
  · split <;> rfl
  · rfl

section Loop

variable {env : ActivityEnv} {s t : ActivitySession} {req : HttpRequest}

theorem processHttpBuffer_none (h : s.tryParseHttp = (t, none)) (n : Nat) :
    processHttpBuffer env n s = some t := by
  unfold processHttpBuffer
  rw [h]

theorem processHttpBuffer_zero (h : s.tryParseHttp = (t, some req)) :
    processHttpBuffer env 0 s = none := by
  unfold processHttpBuffer
  rw [h]

theorem processHttpBuffer_succ (env : ActivityEnv) (h : s.tryParseHttp = (t, some req)) (n : Nat) :
    processHttpBuffer env (n + 1) s =
      if (t.handleHttp env req).stops env then some (t.handleHttp env req)
      else processHttpBuffer env n (t.handleHttp env req) := by
  conv_lhs => unfold processHttpBuffer
  rw [h]

/-- A turn leaves at least four bytes less. -/
theorem length_handleHttp (env : ActivityEnv) (hno : ¬ Wraps s.httpBuffer)
    (h : s.tryParseHttp = (t, some req)) :
    (t.handleHttp env req).httpBuffer.length + 4 ≤ s.httpBuffer.length := by
  obtain ⟨headerEnd, bodyLen, hann, -⟩ := tryParseHttp_some h
  obtain ⟨hle, hdrop, -⟩ := (exact_iff s).2 hno t req h headerEnd bodyLen hann
  rw [httpBuffer_handleHttp, hdrop, List.length_drop]
  omega

theorem turn_eq (h : s.tryParseHttp = (t, some req))
    (hstops : (t.handleHttp env req).stops env = false) :
    turn env s = some (t.handleHttp env req) := by
  rw [turn, h]
  dsimp only
  rw [hstops]
  rfl

end Loop

theorem processHttpBuffer_isSome (env : ActivityEnv) (n : Nat) : ∀ s : ActivitySession,
    s.httpBuffer.length / 4 ≤ n →
    (∀ t, Trace.Reachable (fun s (_ : Unit) => turn env s) s t → ¬ Wraps t.httpBuffer) →
    (processHttpBuffer env n s).isSome := by
  induction n with
  | zero =>
    intro s hn hno
    rcases htry : s.tryParseHttp with ⟨t, _ | req⟩
    · rw [processHttpBuffer_none htry]; rfl
    · have := length_handleHttp env (hno s .refl) htry
      omega
  | succ n ih =>
    intro s hn hno
    rcases htry : s.tryParseHttp with ⟨t, _ | req⟩
    · rw [processHttpBuffer_none htry]; rfl
    · have hlen := length_handleHttp env (hno s .refl) htry
      rw [processHttpBuffer_succ env htry]
      cases hstops : (t.handleHttp env req).stops env with
      | true => rfl
      | false =>
        refine ih _ (by omega) fun u hu => hno u ?_
        exact (Trace.Reachable.refl.step () (turn_eq htry hstops)).trans hu

/-- Over every content of the buffer: a call that returns a request takes exactly
its bytes away iff the length does not wrap; and if it wraps at no turn of the
loop, `ProcessHttpBuffer` returns after handling at most one request for four
bytes of the buffer. -/
theorem request_loop_progress (env : ActivityEnv) (s : ActivitySession) :
    (Exact s ↔ ¬ Wraps s.httpBuffer) ∧
    ((∀ t, Trace.Reachable (fun s (_ : Unit) => turn env s) s t → ¬ Wraps t.httpBuffer) →
      (processHttpBuffer env (s.httpBuffer.length / 4) s).isSome) :=
  ⟨exact_iff s, processHttpBuffer_isSome env _ s (Nat.le_refl _)⟩

/-- A request whose `Content-Length` makes its length 2^64. -/
def wrapping : Bytes := ascii "G / 1\r\nContent-Length:-29\r\n\r\n"

/-- The session is not disconnecting before its send queue of 4096 buffers
overflows; each request of the loop queues one. -/
def queueEnv : ActivityEnv where
  webSocketAccept := id
  disconnecting calls := 4096 < calls.length

/-- The request in `wrapping`. -/
def wrappingRequest : HttpRequest :=
  { method := ascii "G", target := ascii "/", path := ascii "/", query := []
    headers := [(ascii "content-length", ascii "-29")], body := [] }

theorem tryParseHttp_wrapping (calls : List ActivityCall) :
    tryParseHttp { httpBuffer := wrapping, calls } =
      ({ httpBuffer := wrapping, calls }, some wrappingRequest) := by
  have hcut : cut (crlf ++ crlf) wrapping =
      some (ascii "G / 1\r\nContent-Length:-29", []) := by decide +kernel
  have hhead : parseHead (ascii "G / 1\r\nContent-Length:-29") = wrappingRequest := by
    decide +kernel
  have hlen : wrappingRequest.bodyLen = some 0xFFFFFFFFFFFFFFE3 := by decide +kernel
  rw [← hhead] at hlen
  rw [tryParseHttp_complete hcut hlen (Nat.zero_le _), hhead]
  rfl

/-- The loop has not ended after any number of requests up to the limit of the
send queue. -/
theorem processHttpBuffer_wrapping (n : Nat) : ∀ calls : List ActivityCall,
    calls.length + n ≤ 4096 →
    processHttpBuffer queueEnv n { httpBuffer := wrapping, calls } = none := by
  induction n with
  | zero => intro calls _; exact processHttpBuffer_zero (tryParseHttp_wrapping calls)
  | succ n ih =>
    intro calls hn
    have hroute : handleHttp queueEnv { httpBuffer := wrapping, calls } wrappingRequest =
        { httpBuffer := wrapping, calls := calls ++ [.route wrappingRequest] } := by
      rw [handleHttp, if_neg (by decide)]
      rfl
    have hstops : stops queueEnv
        { httpBuffer := wrapping, calls := calls ++ [.route wrappingRequest] } = false := by
      simp only [stops, queueEnv, Bool.false_or, decide_eq_false_iff_not, List.length_append,
        List.length_singleton]
      omega
    rw [processHttpBuffer_succ _ (tryParseHttp_wrapping calls), hroute, hstops]
    exact ih _ (by rw [List.length_append, List.length_singleton]; omega)

/-- A buffer of 29 bytes: the request returned takes no byte away, and the loop
goes through it 4096 times. -/
theorem request_loop_wraps :
    wrapping.length = 29 ∧ announced wrapping = some (25, 0xFFFFFFFFFFFFFFE3) ∧
    tryParseHttp { httpBuffer := wrapping } = ({ httpBuffer := wrapping }, some wrappingRequest) ∧
    ¬ Exact { httpBuffer := wrapping } ∧
    ∀ n ≤ 4096, processHttpBuffer queueEnv n { httpBuffer := wrapping } = none := by
  have hann : announced wrapping = some (25, 0xFFFFFFFFFFFFFFE3) := by decide +kernel
  refine ⟨by decide, hann, tryParseHttp_wrapping [], fun h => ?_, fun n hn => ?_⟩
  · exact (exact_iff _).1 h ⟨_, _, hann, by decide, by decide⟩
  · exact processHttpBuffer_wrapping n [] (by simpa using hn)

end ActivitySession

end ActivityServer

end IouringRuntime
