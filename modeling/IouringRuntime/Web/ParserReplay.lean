import IouringRuntime.Web.HttpParser

/-!
# `Feed` as a replay of callbacks

llhttp is given a stream in chunks, and is paused behind every message and
resumed with the bytes it has not read: `Llhttp.emits` are the callbacks it
makes then, and `HttpParser` has no part in them. `feedAll` is what `HttpParser`
makes of the chunks, up to the first stop request or error. `feedAll_replay` says
that it answers the callbacks of `emits` in turn (`replay`), so that the loop of
`Feed` hands over exactly the unread bytes.
-/

namespace IouringRuntime

namespace Llhttp

variable (L : Llhttp)

/-- The callbacks up to the first message, and where it pauses. -/
def untilPause {L : Llhttp} : List (LlCall × Nat × L.State) → List LlCall × Option (Nat × L.State)
  | [] => ([], none)
  | (c, pos, st) :: rest =>
    if c = .messageComplete then ([c], some (pos, st))
    else (c :: (untilPause rest).1, (untilPause rest).2)

/-- The callbacks llhttp makes on a chunk, resumed behind each message with what
it has not read; no state is left by an error. -/
def drive : Nat → L.State → Bytes → List LlCall × Option L.State
  | 0, st, _ => ([], some st)
  | fuel + 1, st, input =>
    if input = [] then ([], some st)
    else
      match (untilPause (L.calls st input)).2 with
      | none => ((untilPause (L.calls st input)).1, (L.finish st input).toOption)
      | some (pos, next) =>
        let r := drive fuel next (input.drop pos)
        ((untilPause (L.calls st input)).1 ++ r.1, r.2)

/-- The callbacks llhttp makes on a stream cut into chunks. -/
def emits : L.State → List Bytes → List LlCall × Option L.State
  | st, [] => ([], some st)
  | st, chunk :: chunks =>
    let r := L.drive (chunk.length + 1) st chunk
    match r.2 with
    | none => r
    | some st => (r.1 ++ (emits st chunks).1, (emits st chunks).2)

end Llhttp

namespace HttpParser

variable {L : Llhttp}

/-! ## The callbacks of a run

Beside `feed` stands the list of the callbacks it makes, each with the parser
it finds. -/

def runCallsMade (H : HttpHandlers) :
    List (LlCall × Nat × L.State) → HttpParser L → List (LlCall × HttpParser L)
  | [], _ => []
  | (c, _, st) :: rest, p =>
    let p : HttpParser L := { p with ll := st }
    (c, p) :: if (p.callback H c).2 = .ok then runCallsMade H rest (p.callback H c).1 else []

def executeMade (H : HttpHandlers) (p : HttpParser L) (input : Bytes) :
    List (LlCall × HttpParser L) :=
  match p.llError with
  | some _ => []
  | none => runCallsMade H (L.calls p.ll input) p

def feedLoopMade (H : HttpHandlers) :
    Nat → HttpParser L → Nat → Bytes → List (LlCall × HttpParser L)
  | 0, _, _, _ => []
  | fuel + 1, p, current, rest =>
    if rest = [] ∨ p.status ≠ .ok then []
    else
      let r := p.execute H current rest
      p.executeMade H rest ++
        match r.2 with
        | some .paused =>
          let consumed := sub32 r.1.errorPos current
          if r.1.stopRequested then []
          else feedLoopMade H fuel { r.1 with llError := none } (current + consumed)
            (rest.drop consumed)
        | _ => []

def feedMade (H : HttpHandlers) (p : HttpParser L) (data : Nat) (bytes : Bytes) :
    List (LlCall × HttpParser L) :=
  feedLoopMade H (bytes.length + 1) p data bytes

/-- `Feed` of the chunks, each at its address, up to the first stop request or
error; with the callbacks made. -/
def feedAll (H : HttpHandlers) : HttpParser L → List (Nat × Bytes) →
    HttpParser L × List (LlCall × HttpParser L)
  | p, [] => (p, [])
  | p, (data, bytes) :: chunks =>
    if p.hasError || p.stopRequested then (p, [])
    else
      let r := feedAll H (p.feed H data bytes).1 chunks
      (r.1, p.feedMade H data bytes ++ r.2)

/-- The requests that `on_request_` was called with. -/
def delivered (made : List (LlCall × HttpParser L)) : List HttpRequest :=
  made.filterMap fun m => if m.1 = .messageComplete then some m.2.request else none

/-! ## Replaying callbacks -/

/-- The parser's own part: llhttp's is as in the beginning. -/
def forget (p : HttpParser L) : HttpParser L :=
  { p with ll := L.init, llError := none, errorPos := 0 }

/-- What becomes of a list of callbacks: the parser, those that were made, and
whether a failure or a stop request has ended it. -/
structure Replay (L : Llhttp) where
  parser : HttpParser L
  made : List (LlCall × HttpParser L)
  ended : Bool

def replay (H : HttpHandlers) : List LlCall → HttpParser L → Replay L
  | [], p => ⟨p, [], false⟩
  | c :: rest, p =>
    let r := p.callback H c
    if r.2 = .user ∨ r.2 = .paused ∧ r.1.stopRequested = true then ⟨r.1, [(c, p)], true⟩
    else
      let t := replay H rest r.1
      ⟨t.parser, (c, p) :: t.made, t.ended⟩

variable {H : HttpHandlers} {p q : HttpParser L} {c : LlCall} {l l' : List LlCall}

/-- A callback does not look at llhttp's part. -/
theorem callback_forget (H : HttpHandlers) (p : HttpParser L) (c : LlCall) :
    p.forget.callback H c = ((p.callback H c).1.forget, (p.callback H c).2) := by
  cases c with
  | url data =>
    by_cases h : p.options.maxUrlBytes < p.rawUrl.length + data.length <;>
      simp [callback, onUrl, forget, h]
  | headerField data =>
    by_cases h : p.options.maxHeaderBytes < p.headerBytesUsed + data.length <;>
      simp [callback, onHeaderField, onHeaderBytes, forget, h]
  | headerValue data =>
    by_cases h : p.options.maxHeaderBytes < p.headerBytesUsed + data.length <;>
      simp [callback, onHeaderValue, onHeaderBytes, forget, h]
  | headersComplete method keepAlive =>
    by_cases h : p.options.maxBodyBytes < (H.onHeaders p.handlerCalls
        { p.request with method := .fromLlhttp method, keepAlive := keepAlive }).1.contentLength <;>
      simp [callback, onHeadersComplete, forget, h]
  | body data =>
    by_cases h : p.options.maxBodyBytes < p.bodyBytesSeen + data.length
    · simp [callback, onBody, forget, h]
    · cases hm : p.bodyMode with
      | buffer => simp [callback, onBody, forget, h, hm]
      | discard => simp [callback, onBody, forget, h, hm]
      | stream =>
        cases hb : (H.onBodyChunk p.handlerCalls p.request data).2 <;>
          simp [callback, onBody, forget, h, hm, hb]
  | messageComplete =>
    cases hb : (H.onRequest p.handlerCalls p.request).2 <;>
      simp [callback, onMessageComplete, forget, hb]
  | _ => rfl

theorem forget_status (p : HttpParser L) : p.forget.status = p.status := rfl

/-- A callback is made and the replay goes on. -/
def Replay.after (m : LlCall × HttpParser L) (t : Replay L) : Replay L :=
  { t with made := m :: t.made }

theorem replay_ok (h : p.callback H c = (q, .ok)) (l : List LlCall) :
    replay H (c :: l) p = (replay H l q).after (c, p) := by
  simp [replay, h, Replay.after]

theorem replay_user (h : p.callback H c = (q, .user)) (l : List LlCall) :
    replay H (c :: l) p = ⟨q, [(c, p)], true⟩ := by
  simp [replay, h]

theorem replay_stopped (h : p.callback H c = (q, .paused)) (hs : q.stopRequested = true)
    (l : List LlCall) : replay H (c :: l) p = ⟨q, [(c, p)], true⟩ := by
  simp [replay, h, hs]

theorem replay_paused (h : p.callback H c = (q, .paused)) (hs : q.stopRequested = false)
    (l : List LlCall) : replay H (c :: l) p = (replay H l q).after (c, p) := by
  simp [replay, h, hs, Replay.after]

theorem replay_append (H : HttpHandlers) (l l' : List LlCall) (p : HttpParser L) :
    replay H (l ++ l') p =
      if (replay H l p).ended then replay H l p
      else
        let t := replay H l' (replay H l p).parser
        ⟨t.parser, (replay H l p).made ++ t.made, t.ended⟩ := by
  induction l generalizing p with
  | nil => rfl
  | cons c rest ih =>
    simp only [List.cons_append, replay]
    split
    · rfl
    · rw [ih]
      split <;> rfl

theorem replay_append_ended (h : (replay H l p).ended = true) (l' : List LlCall) :
    replay H (l ++ l') p = replay H l p := by
  rw [replay_append, if_pos h]

theorem replay_append_running (h : (replay H l p).ended = false) (hq : (replay H l p).parser = q)
    (l' : List LlCall) :
    replay H (l ++ l') p = ⟨(replay H l' q).parser, (replay H l p).made ++ (replay H l' q).made,
      (replay H l' q).ended⟩ := by
  rw [replay_append, h, hq]
  rfl

/-- A callback that is not answered with `HPE_USER` keeps the status, and only
`OnMessageComplete` asks to stop. -/
theorem callback_running (hs : p.status = .ok) (hr : p.stopRequested = false)
    (hc : ¬ ((p.callback H c).2 = .user ∨
      (p.callback H c).2 = .paused ∧ (p.callback H c).1.stopRequested = true)) :
    (p.callback H c).1.status = .ok ∧ (p.callback H c).1.stopRequested = false := by
  push Not at hc
  have spec := callback_spec H p c
  refine ⟨(spec.status_eq hc.1).trans hs, ?_⟩
  cases hres : (p.callback H c).2 with
  | user => exact absurd hres hc.1
  | paused => exact Bool.eq_false_of_not_eq_true (hc.2 hres)
  | ok =>
    refine stopRequested_callback ?_ hr
    rintro rfl
    cases hres

/-- A replay goes on without an error status and a stop request, and ends with
one of them. -/
theorem replay_running (l : List LlCall) (hs : p.status = .ok) (hr : p.stopRequested = false) :
    ((replay H l p).ended = false →
      (replay H l p).parser.status = .ok ∧ (replay H l p).parser.stopRequested = false) ∧
    ((replay H l p).ended = true →
      (replay H l p).parser.status ≠ .ok ∨ (replay H l p).parser.stopRequested = true) := by
  induction l generalizing p with
  | nil => exact ⟨fun _ => ⟨hs, hr⟩, fun h => (by cases h)⟩
  | cons c rest ih =>
    simp only [replay]
    split
    · next hend =>
      refine ⟨fun h => (by cases h), fun _ => ?_⟩
      rcases hend with hend | hend
      · exact .inl ((callback_spec H p c).status_ne hend)
      · exact .inr hend.2
    · next hgo =>
      obtain ⟨hs', hr'⟩ := callback_running hs hr hgo
      exact ih hs' hr'

/-! ## What `Feed` does is a replay -/

/-- How `llhttp_execute` ends, in terms of the callbacks up to the first message
and of their replay `R`. -/
inductive Follows (current : Nat) (finish : Except Nat L.State) (pause : Option (Nat × L.State))
    (R : Replay L) : HttpParser L × Option LlError → Prop where
  | done {q : HttpParser L} : R.ended = false → pause = none → finish = .ok q.ll →
      q.llError = none → q.forget = R.parser → Follows current finish pause R (q, none)
  | error {q : HttpParser L} {pos : Nat} : R.ended = false → pause = none → finish = .error pos →
      q.forget = R.parser → Follows current finish pause R (q.stopAt .failed (current + pos))
  | paused {q : HttpParser L} {pos : Nat} : R.ended = false → pause = some (pos, q.ll) →
      q.forget = R.parser → Follows current finish pause R (q.stopAt .paused (current + pos))
  | failed {q : HttpParser L} {pos : Nat} : R.ended = true → q.status ≠ .ok →
      q.forget = R.parser → Follows current finish pause R (q.stopAt .failed (current + pos))
  | stopped {q : HttpParser L} {pos : Nat} : R.ended = true → q.stopRequested = true →
      q.forget = R.parser → Follows current finish pause R (q.stopAt .paused (current + pos))

theorem Follows.after {current : Nat} {finish : Except Nat L.State}
    {pause : Option (Nat × L.State)} {R : Replay L} {x : HttpParser L × Option LlError}
    (h : Follows current finish pause R x) (m : LlCall × HttpParser L) :
    Follows current finish pause (R.after m) x := by
  cases h with
  | done h1 h2 h3 h4 h5 => exact .done h1 h2 h3 h4 h5
  | error h1 h2 h3 h4 => exact .error h1 h2 h3 h4
  | paused h1 h2 h3 => exact .paused h1 h2 h3
  | failed h1 h2 h3 => exact .failed h1 h2 h3
  | stopped h1 h2 h3 => exact .stopped h1 h2 h3

/-- The callbacks made, without llhttp's part. -/
def forgetAll (made : List (LlCall × HttpParser L)) : List (LlCall × HttpParser L) :=
  made.map fun m => (m.1, m.2.forget)

theorem ll_callback (H : HttpHandlers) (p : HttpParser L) (c : LlCall) :
    (p.callback H c).1.ll = p.ll := by
  cases c with
  | url data =>
    simp only [callback, onUrl]
    split <;> rfl
  | headerField data | headerValue data =>
    simp only [callback, onHeaderField, onHeaderValue, onHeaderBytes]
    split <;> rfl
  | headersComplete method keepAlive =>
    simp only [callback, onHeadersComplete]
    split <;> rfl
  | body data =>
    simp only [callback, onBody]
    split
    · rfl
    · split
      · rfl
      · rfl
      · split <;> rfl
  | messageComplete =>
    simp only [callback, onMessageComplete]
    split <;> rfl
  | _ => rfl

/-- `llhttp_resume`. -/
def resume (p : HttpParser L) : HttpParser L := { p with llError := none }

/-- llhttp has gone on to a state of its own. -/
def setLl (p : HttpParser L) (st : L.State) : HttpParser L := { p with ll := st }

section Step

variable {current pos : Nat} {finish : Except Nat L.State} {st : L.State}
  {rest : List (LlCall × Nat × L.State)}

theorem runCalls_ok (h : (p.setLl st).callback H c = (q, .ok)) :
    runCalls H current finish ((c, pos, st) :: rest) p = runCalls H current finish rest q := by
  have h : ({ p with ll := st } : HttpParser L).callback H c = (q, .ok) := h
  simp only [runCalls, h]

theorem runCalls_user (h : (p.setLl st).callback H c = (q, .user)) :
    runCalls H current finish ((c, pos, st) :: rest) p = q.stopAt .failed (current + pos) := by
  have h : ({ p with ll := st } : HttpParser L).callback H c = (q, .user) := h
  simp only [runCalls, h]

theorem runCalls_paused (h : (p.setLl st).callback H c = (q, .paused)) :
    runCalls H current finish ((c, pos, st) :: rest) p = q.stopAt .paused (current + pos) := by
  have h : ({ p with ll := st } : HttpParser L).callback H c = (q, .paused) := h
  simp only [runCalls, h]

theorem runCallsMade_ok (h : (p.setLl st).callback H c = (q, .ok)) :
    runCallsMade H ((c, pos, st) :: rest) p = (c, p.setLl st) :: runCallsMade H rest q := by
  have h : ({ p with ll := st } : HttpParser L).callback H c = (q, .ok) := h
  simp only [runCallsMade, h, if_true]
  rfl

theorem runCallsMade_stop {res : CallbackResult} (h : (p.setLl st).callback H c = (q, res))
    (hres : res ≠ .ok) : runCallsMade H ((c, pos, st) :: rest) p = [(c, p.setLl st)] := by
  have h : ({ p with ll := st } : HttpParser L).callback H c = (q, res) := h
  simp only [runCallsMade, h, if_neg hres]
  rfl

end Step

theorem runCalls_follows (current : Nat) (finish : Except Nat L.State)
    (calls : List (LlCall × Nat × L.State)) (he : p.llError = none) :
    Follows current finish (Llhttp.untilPause calls).2
        (replay H (Llhttp.untilPause calls).1 p.forget) (runCalls H current finish calls p) ∧
      forgetAll (runCallsMade H calls p) =
        (replay H (Llhttp.untilPause calls).1 p.forget).made := by
  induction calls generalizing p with
  | nil =>
    refine ⟨?_, rfl⟩
    cases finish with
    | ok st => exact .done rfl rfl rfl he rfl
    | error pos => exact .error rfl rfl rfl rfl
  | cons call rest ih =>
    obtain ⟨c, pos, st⟩ := call
    have spec := callback_spec H (p.setLl st) c
    have hf : p.forget.callback H c = _ := callback_forget H (p.setLl st) c
    have hll := ll_callback H (p.setLl st) c
    rcases hcall : (p.setLl st).callback H c with ⟨q, res⟩
    rw [hcall] at spec hf hll
    cases res with
    | ok =>
      have hc : c ≠ .messageComplete := by
        rintro rfl
        cases (congrArg Prod.snd hf : CallbackResult.paused = .ok)
      obtain ⟨hgo, hmore⟩ := ih (p := q) (spec.llError_eq.trans he)
      simp only [Llhttp.untilPause, if_neg hc]
      rw [replay_ok hf, runCalls_ok hcall, runCallsMade_ok hcall]
      exact ⟨hgo.after _, congrArg _ hmore⟩
    | user =>
      have hrep : replay H (Llhttp.untilPause ((c, pos, st) :: rest)).1 p.forget =
          ⟨q.forget, [(c, p.forget)], true⟩ := by
        unfold Llhttp.untilPause
        split <;> exact replay_user hf _
      rw [hrep, runCalls_user hcall, runCallsMade_stop hcall fun h => by cases h]
      exact ⟨.failed rfl (spec.status_ne rfl) rfl, rfl⟩
    | paused =>
      obtain rfl := spec.complete rfl
      simp only [Llhttp.untilPause, if_true]
      rw [runCalls_paused hcall, runCallsMade_stop hcall fun h => by cases h]
      cases hstop : q.stopRequested with
      | false =>
        rw [replay_paused hf hstop]
        exact ⟨.paused rfl (congrArg (fun st => some (pos, st)) hll.symm) rfl, rfl⟩
      | true =>
        rw [replay_stopped hf hstop]
        exact ⟨.stopped rfl hstop rfl, rfl⟩

theorem mem_of_untilPause {calls : List (LlCall × Nat × L.State)} {pos : Nat} {st : L.State}
    (h : (Llhttp.untilPause calls).2 = some (pos, st)) : (.messageComplete, pos, st) ∈ calls := by
  induction calls with
  | nil => cases h
  | cons call rest ih =>
    obtain ⟨c, pos', st'⟩ := call
    unfold Llhttp.untilPause at h
    split at h
    · next hc =>
      cases h
      rw [hc]
      exact List.mem_cons_self ..
    · exact List.mem_cons_of_mem _ (ih h)

theorem drive_done {fuel : Nat} {st : L.State} {input : Bytes} (hne : input ≠ [])
    (h : (Llhttp.untilPause (L.calls st input)).2 = none) :
    L.drive (fuel + 1) st input =
      ((Llhttp.untilPause (L.calls st input)).1, (L.finish st input).toOption) := by
  simp only [Llhttp.drive, if_neg hne, h]

theorem drive_paused {fuel pos : Nat} {st next : L.State} {input : Bytes} (hne : input ≠ [])
    (h : (Llhttp.untilPause (L.calls st input)).2 = some (pos, next)) :
    L.drive (fuel + 1) st input =
      ((Llhttp.untilPause (L.calls st input)).1 ++ (L.drive fuel next (input.drop pos)).1,
        (L.drive fuel next (input.drop pos)).2) := by
  simp only [Llhttp.drive, if_neg hne, h]

/-- A replay that has ended behind the first message does not look further. -/
theorem replay_drive (fuel : Nat) {st : L.State} {input : Bytes} (hne : input ≠ [])
    (hend : (replay H (Llhttp.untilPause (L.calls st input)).1 p).ended = true) :
    replay H (L.drive (fuel + 1) st input).1 p =
      replay H (Llhttp.untilPause (L.calls st input)).1 p := by
  cases h : (Llhttp.untilPause (L.calls st input)).2 with
  | none => rw [drive_done hne h]
  | some next => rw [drive_paused hne h, replay_append_ended hend]

/-- The parser left by a replay, when llhttp may have reported an error behind it. -/
def Replay.outcome (R : Replay L) (failed : Bool) : HttpParser L :=
  if R.ended = false ∧ failed = true then R.parser.badRequest else R.parser

theorem Replay.outcome_ended {R : Replay L} (h : R.ended = true) (failed : Bool) :
    R.outcome failed = R.parser :=
  if_neg fun hn => Bool.false_ne_true (hn.1.symm.trans h)

theorem Replay.outcome_ok (R : Replay L) : R.outcome false = R.parser :=
  if_neg fun hn => Bool.false_ne_true hn.2

theorem Replay.outcome_failed {R : Replay L} (h : R.ended = false) :
    R.outcome true = R.parser.badRequest :=
  if_pos ⟨h, rfl⟩

/-- What `Feed` makes of a chunk is the replay of what llhttp makes of it. -/
structure FeedReplays (H : HttpHandlers) (p : HttpParser L) (D : List LlCall × Option L.State)
    (x : HttpParser L) (made : List (LlCall × HttpParser L)) : Prop where
  parser : x.forget = (replay H D.1 p.forget).outcome D.2.isNone
  made : forgetAll made = (replay H D.1 p.forget).made
  state : (replay H D.1 p.forget).ended = false → ∀ st, D.2 = some st → x.ll = st ∧ x.llError = none

section FeedReplays

variable {D : List LlCall × Option L.State} {x : HttpParser L}
  {made made' : List (LlCall × HttpParser L)}

theorem FeedReplays.of_ended (hend : (replay H D.1 p.forget).ended = true)
    (hx : x.forget = (replay H D.1 p.forget).parser)
    (hm : forgetAll made = (replay H D.1 p.forget).made) : FeedReplays H p D x made where
  parser := hx.trans (Replay.outcome_ended hend _).symm
  made := hm
  state hn := by cases hn.symm.trans hend

/-- More is fed behind callbacks that have left the parser `q`. -/
theorem FeedReplays.behind (h : FeedReplays H q D x made')
    (hend : (replay H l p.forget).ended = false) (hq : (replay H l p.forget).parser = q.forget)
    (hm : forgetAll made = (replay H l p.forget).made) :
    FeedReplays H p (l ++ D.1, D.2) x (made ++ made') := by
  have hrep := replay_append_running hend hq D.1
  refine ⟨?_, ?_, ?_⟩
  · rw [hrep]
    exact h.parser
  · rw [hrep, forgetAll, List.map_append]
    exact congrArg₂ _ hm h.made
  · rw [hrep]
    exact h.state

end FeedReplays

theorem badRequest_of_ne (h : p.status ≠ .ok) : p.badRequest = p := by
  simp only [badRequest, if_neg h]

theorem feedLoop_replays (hL : L.Lawful) {data len : Nat} (hlen : len < 2 ^ 32) (fuel : Nat) :
    ∀ (p : HttpParser L) (off : Nat) (rest : Bytes), p.status = .ok → p.llError = none →
      p.stopRequested = false → off + rest.length = len → rest.length < fuel →
      FeedReplays H p (L.drive fuel p.ll rest) (feedLoop H data len fuel p (data + off) rest).1
        (feedLoopMade H fuel p (data + off) rest) := by
  induction fuel with
  | zero => intro p off rest _ _ _ _ hf; omega
  | succ fuel ih =>
    intro p off rest hs he hstop hoff hf
    by_cases hne : rest = []
    · subst hne
      rw [feedLoop, feedLoopMade, if_pos (.inl rfl), if_pos (.inl rfl)]
      have hd : L.drive (fuel + 1) p.ll [] = ([], some p.ll) := by
        rw [Llhttp.drive, if_pos rfl]
      rw [hd]
      exact ⟨rfl, rfl, fun _ st hst => ⟨Option.some.inj hst, he⟩⟩
    · have hg : ¬ (rest = [] ∨ p.status ≠ .ok) := not_or.2 ⟨hne, not_not.2 hs⟩
      have hexec : p.execute H (data + off) rest =
          runCalls H (data + off) (L.finish p.ll rest) (L.calls p.ll rest) p := by
        rw [execute, he]
      have hmade : p.executeMade H rest = runCallsMade H (L.calls p.ll rest) p := by
        rw [executeMade, he]
      obtain ⟨hx, hm⟩ := runCalls_follows (H := H) (data + off) (L.finish p.ll rest)
        (L.calls p.ll rest) he
      have hlast : forgetAll (runCallsMade H (L.calls p.ll rest) p ++ []) =
          (replay H (Llhttp.untilPause (L.calls p.ll rest)).1 p.forget).made := by
        rw [List.append_nil, hm]
      rw [feedLoop, feedLoopMade, if_neg hg, if_neg hg, hexec, hmade]
      have hrunning := replay_running (H := H) (p := p.forget)
        (Llhttp.untilPause (L.calls p.ll rest)).1 hs hstop
      generalize runCalls H (data + off) (L.finish p.ll rest) (L.calls p.ll rest) p = x at hx
      cases hx with
      | @done q hend hp hfin hq hR =>
        rw [drive_done hne hp, hfin]
        exact ⟨hR.trans (Replay.outcome_ok _).symm, hlast, fun _ st hst => ⟨Option.some.inj hst, hq⟩⟩
      | @error q pos hend hp hfin hR =>
        rw [drive_done hne hp, hfin]
        refine ⟨?_, hlast, fun _ st hst => by cases hst⟩
        show _ = Replay.outcome _ true
        rw [Replay.outcome_failed hend, ← hR]
        rfl
      | @paused q pos hend hp hR =>
        have hmem := mem_of_untilPause hp
        have hle : pos ≤ rest.length := hL.call_le _ _ _ hmem
        have hpos : 0 < pos := hL.complete_pos _ _ _ hmem rfl
        have hk : sub32 (data + off + pos) (data + off) = pos := sub32_add _ (by omega)
        obtain ⟨hqs, hqstop⟩ := hrunning.1 hend
        rw [← hR] at hqs hqstop
        have hgo := ih (q.stopAt .paused (data + off + pos)).1.resume (off + pos) (rest.drop pos)
          hqs rfl hqstop (by rw [List.length_drop]; omega) (by rw [List.length_drop]; omega)
        have hstopped : ¬ (q.stopAt .paused (data + off + pos)).1.stopRequested = true :=
          Bool.not_eq_true _ ▸ hqstop
        rw [← Nat.add_assoc] at hgo
        rw [drive_paused hne hp]
        simp only [stopAt, hk] at hstopped ⊢
        rw [if_neg hstopped, if_neg hstopped]
        exact hgo.behind hend hR.symm hm
      | @failed q pos hend hst hR =>
        have hrep := replay_drive fuel hne hend
        refine .of_ended (hrep ▸ hend) ?_ (hrep ▸ hlast)
        show q.badRequest.forget = _
        rw [badRequest_of_ne hst, hR, hrep]
      | @stopped q pos hend hst hR =>
        have hrep := replay_drive fuel hne hend
        refine .of_ended (hrep ▸ hend) (hrep ▸ ?_) (hrep ▸ ?_)
        · exact (congrArg (fun y => HttpParser.forget (Prod.fst y)) (if_pos hst)).trans hR
        · exact (congrArg (fun y => forgetAll (runCallsMade H (L.calls p.ll rest) p ++ y))
            (if_pos hst)).trans hlast

theorem feed_replays (hL : L.Lawful) (data : Nat) {bytes : Bytes} (hlen : bytes.length < 2 ^ 32)
    (hs : p.status = .ok) (he : p.llError = none) (hstop : p.stopRequested = false) :
    FeedReplays H p (L.drive (bytes.length + 1) p.ll bytes) (p.feed H data bytes).1
      (p.feedMade H data bytes) :=
  feedLoop_replays hL hlen _ p 0 bytes hs he hstop (Nat.zero_add _) (Nat.lt_succ_self _)

/-- A parser that has met an error or been stopped takes no more chunks. -/
theorem feedAll_ended (h : p.status ≠ .ok ∨ p.stopRequested = true) (chunks : List (Nat × Bytes)) :
    p.feedAll H chunks = (p, []) := by
  cases chunks with
  | nil => rfl
  | cons chunk chunks =>
    rw [feedAll, if_pos]
    simpa [hasError] using h

/-- `HttpParser` answers the callbacks of llhttp in turn, whatever the chunks. -/
theorem feedAll_replay (hL : L.Lawful) (chunks : List (Nat × Bytes))
    (hlen : ∀ c ∈ chunks, c.2.length < 2 ^ 32) (hs : p.status = .ok) (he : p.llError = none)
    (hstop : p.stopRequested = false) :
    FeedReplays H p (L.emits p.ll (chunks.map Prod.snd)) (p.feedAll H chunks).1
      (p.feedAll H chunks).2 := by
  induction chunks generalizing p with
  | nil => exact ⟨rfl, rfl, fun _ st hst => ⟨Option.some.inj hst, he⟩⟩
  | cons chunk chunks ih =>
    obtain ⟨data, bytes⟩ := chunk
    obtain ⟨hbytes, hrest⟩ := List.forall_mem_cons.1 hlen
    have hfed := feed_replays (H := H) hL data hbytes hs he hstop
    have hrun := replay_running (H := H) (p := p.forget) (L.drive (bytes.length + 1) p.ll bytes).1
      hs hstop
    have hguard : ¬ (p.hasError || p.stopRequested) = true := by simp [hasError, hs, hstop]
    rw [feedAll, if_neg hguard]
    simp only [List.map_cons, Llhttp.emits]
    generalize L.drive (bytes.length + 1) p.ll bytes = D at hfed hrun
    generalize (p.feed H data bytes).1 = x at hfed
    generalize p.feedMade H data bytes = made at hfed
    obtain ⟨calls, next⟩ := D
    cases hend : (replay H calls p.forget).ended with
    | true =>
      -- nothing behind the end is replayed or fed
      have hx : x.forget = (replay H calls p.forget).parser :=
        hfed.parser.trans (Replay.outcome_ended hend _)
      have hxend : x.status ≠ .ok ∨ x.stopRequested = true := by
        have h := hrun.2 hend
        rwa [← hx] at h
      rw [feedAll_ended hxend, List.append_nil]
      cases next with
      | none => exact hfed
      | some st =>
        have hrep := replay_append_ended hend (L.emits st (chunks.map Prod.snd)).1
        exact .of_ended (hrep ▸ hend) (hrep ▸ hx) (hrep ▸ hfed.made)
    | false =>
      cases next with
      | none =>
        -- llhttp has reported an error
        have hxs : x.status ≠ .ok := by
          rw [← forget_status, hfed.parser.trans (Replay.outcome_failed hend)]
          exact badRequest_status _
        rw [feedAll_ended (.inl hxs), List.append_nil]
        exact hfed
      | some st =>
        obtain ⟨rfl, hxe⟩ := hfed.state hend st rfl
        have hx : x.forget = (replay H calls p.forget).parser :=
          hfed.parser.trans (Replay.outcome_ok _)
        obtain ⟨hxs, hxstop⟩ := hrun.1 hend
        rw [← hx] at hxs hxstop
        exact (ih (p := x) hrest hxs hxe hxstop).behind hend hx.symm hfed.made

end HttpParser

end IouringRuntime
