import IouringRuntime.Web.HttpExchange

/-!
# The request deadline

`request_in_progress_` puts a request under the deadline. `HandleHttpRecv` sets it
once, before the chunk is parsed, and each completed message clears it. A chunk
is given by the callbacks that llhttp makes on it: wherever the bytes of a stream
are cut, some callbacks fall to each chunk. So the flag is right after a chunk
exactly if the chunk completes a message just when it does not end inside one.
-/

namespace IouringRuntime

/-- llhttp has begun a message that is not complete. -/
def MessagePhase.inside : MessagePhase → Bool
  | .head | .body => true
  | .between | .over => false

/-- The same, from the callbacks. -/
def LlCall.inside (inside : Bool) : LlCall → Bool
  | .messageBegin => true
  | .messageComplete => false
  | _ => inside

/-- llhttp is inside a message after these callbacks. -/
def endsInside (inside : Bool) (calls : List LlCall) : Bool := calls.foldl LlCall.inside inside

theorem MessagePhase.inside_next {ph ph' : MessagePhase} {c : LlCall}
    (h : ph.next c = some ph') : ph'.inside = c.inside ph.inside := by
  cases ph <;> cases c <;> cases h <;> rfl

namespace HttpExchange

variable {L : Llhttp} {W : World} {s s' : HttpExchange L}

theorem requestInProgress_handle (s : HttpExchange L) (c : LlCall) :
    (s.handle W c).requestInProgress = (s.requestInProgress && c ≠ .messageComplete) := by
  cases c with
  | headersComplete method keepAlive =>
    simp only [handle, prepareRequestBody]
    split
    · simp
    · split
      · simp
      · split <;> simp [updateStream]
  | body data =>
    simp only [handle, handleBodyChunk]
    split
    · split
      · simp
      · split
        · simp
        · split <;> simp [updateStream]
    · simp
  | messageComplete =>
    have h := completes_handleRequest (W := W) s s.parser.request
    simp only [handle]
    generalize (s.handleRequest W s.parser.request).1 = t at h
    cases h <;> simp [completed]
  | _ => simp [handle]

/-- A callback after which llhttp goes on. -/
theorem llhttp_live {c : LlCall} (hs : step W s (.llhttp c) = some s') (hlive : s'.phase ≠ .over) :
    s'.phase.inside = c.inside s.phase.inside ∧
      s'.requestInProgress = (s.requestInProgress && c ≠ .messageComplete) := by
  cases step_cases hs with
  | clock now _ _ hi => obtain hi | hi := hi <;> cases hi
  | expire now hi _ => obtain hi | hi := hi <;> cases hi
  | @callback _ phase phase' hp hp' =>
    obtain rfl := hp'.resolve_right hlive
    exact ⟨MessagePhase.inside_next hp, requestInProgress_handle s c⟩
  | fail hp hu => exact absurd (phase_failParse _) hlive

/-- llhttp has gone on when it goes on after the callbacks. -/
theorem live_of_callbacks {calls : List LlCall}
    (hrun : Trace.run (step W) s (calls.map .llhttp) = some s') (hlive : s'.phase ≠ .over) :
    s.phase ≠ .over := by
  cases calls with
  | nil =>
    cases hrun
    exact hlive
  | cons c calls =>
    obtain ⟨t, ht, -⟩ := Option.bind_eq_some_iff.1 hrun
    cases step_cases ht with
    | clock now _ _ hi => obtain hi | hi := hi <;> cases hi
    | expire now hi _ => obtain hi | hi := hi <;> cases hi
    | callback hp _ => exact MessagePhase.next_ne_over hp
    | fail hp _ => exact MessagePhase.next_ne_over hp

/-- The callbacks of a chunk after which llhttp goes on. -/
theorem callbacks_live {calls : List LlCall} :
    ∀ {s : HttpExchange L}, Trace.run (step W) s (calls.map .llhttp) = some s' →
      s'.phase ≠ .over → s'.phase.inside = endsInside s.phase.inside calls ∧
        s'.requestInProgress = (s.requestInProgress && .messageComplete ∉ calls) := by
  induction calls with
  | nil =>
    intro s hrun _
    cases hrun
    exact ⟨rfl, by simp⟩
  | cons c calls ih =>
    intro s hrun hlive
    obtain ⟨t, ht, hrest⟩ := Option.bind_eq_some_iff.1 hrun
    obtain ⟨hinside, hflag⟩ := ih hrest hlive
    obtain ⟨hinside', hflag'⟩ := llhttp_live ht (live_of_callbacks hrest hlive)
    refine ⟨hinside.trans (congrArg (endsInside · calls) hinside'), ?_⟩
    rw [hflag, hflag', Bool.and_assoc]
    simp [List.mem_cons, eq_comm]

/-- A chunk that does not meet an expired deadline sets the flag. -/
theorem recv_live (htimeout : W.requestTimeout ≠ 0) {now : Nat}
    (hs : step W s (.recv now) = some s') (hlive : s'.phase ≠ .over) :
    s'.phase = s.phase ∧ s'.requestInProgress = true := by
  unfold step at hs
  split at hs
  · cases hs
  · obtain ⟨-, hs⟩ := Option.ite_none_right_eq_some.1 hs
    cases hs
    unfold startOrFailRequestDeadline at hlive ⊢
    rw [if_neg htimeout] at hlive ⊢
    split
    · next hflag =>
      rw [if_pos hflag] at hlive
      unfold failRequestDeadlineIfExpired at hlive ⊢
      split at hlive
      · exact absurd rfl hlive
      · next hexpired =>
        rw [if_neg hexpired]
        exact ⟨rfl, hflag⟩
    · exact ⟨rfl, rfl⟩

/-- **The deadline follows the requests.** After a chunk on which llhttp does not
stop, `request_in_progress_` says whether a message is begun and not complete
iff the chunk completes a message exactly if it does not end inside one. -/
theorem requestInProgress_iff (htimeout : W.requestTimeout ≠ 0) {now : Nat} {calls : List LlCall}
    (hrun : Trace.run (step W) s (.recv now :: calls.map .llhttp) = some s')
    (hlive : s'.phase ≠ .over) :
    (s'.requestInProgress = true ↔ s'.phase.inside = true) ↔
      (.messageComplete ∈ calls ↔ endsInside s.phase.inside calls = false) := by
  obtain ⟨t, ht, hcalls⟩ := Option.bind_eq_some_iff.1 hrun
  obtain ⟨hphase, hset⟩ := recv_live htimeout ht (live_of_callbacks hcalls hlive)
  obtain ⟨hinside, hflag⟩ := callbacks_live hcalls hlive
  rw [hflag, hset, hinside, hphase, Bool.true_and, decide_eq_true_eq, ← Bool.not_eq_true]
  exact not_iff_comm.trans iff_comm

/-- No routes, and a deadline of one second. -/
def deadlineWorld : World := { router := {}, requestTimeout := 1000 }

/-- The callbacks for `GET /`. -/
def getCalls : List LlCall :=
  [.messageBegin, .url [47], .urlComplete, .headersComplete 1 true, .messageComplete]

/-- The state after one chunk with these callbacks. -/
def afterChunk (calls : List LlCall) : Option (HttpExchange HttpRecv.closingLlhttp) :=
  Trace.run (step deadlineWorld) (make HttpRecv.closingLlhttp {}) (.recv 0 :: calls.map .llhttp)

theorem requestInProgress_iff_get :
    ∃ s, afterChunk getCalls = some s ∧
      (s.requestInProgress = true ↔ s.phase.inside = true) := by
  have hend : (afterChunk getCalls).map (·.phase) = some .between := rfl
  obtain ⟨s, hs, hphase⟩ := Option.map_eq_some_iff.1 hend
  have hlive : s.phase ≠ .over := by
    rw [hphase]
    decide
  exact ⟨s, hs, (requestInProgress_iff (W := deadlineWorld) (by decide) hs hlive).2 (by decide)⟩

/-- A chunk that ends inside the message after the one it completes leaves that
message without a deadline; one that holds only blank lines starts a deadline
for no message. -/
theorem deadline_missed :
    (∃ s, afterChunk (getCalls ++ [.messageBegin]) = some s ∧ s.outbox.isOpen = true ∧
      s.phase = .head ∧ s.requestInProgress = false) ∧
    ∃ s, afterChunk [] = some s ∧ s.outbox.isOpen = true ∧ s.phase = .between ∧
      s.requestInProgress = true :=
  ⟨⟨_, rfl, rfl, rfl, rfl⟩, ⟨_, rfl, rfl, rfl, rfl⟩⟩

end HttpExchange

end IouringRuntime
