import IouringRuntime.Activity.RequestLoop

/-!
# The switch to WebSocket frames

An upgrade request and what follows it on the connection, cut into chunks in any
way. What a chunk brings behind the end of the request stays in `http_buffer_`,
which nobody reads any more: the frames reach `ProcessWsBuffer` complete exactly
if a chunk ends where the request ends (`upgrade_keeps_bytes_iff`).
-/

namespace IouringRuntime

open Search

namespace ActivityServer

/-- A request for `/ws` with a key, and its body if it announces one. -/
structure UpgradeRequest where
  head : Bytes
  body : Bytes
  head_end : cut (crlf ++ crlf) (head ++ (crlf ++ crlf)) = some (head, [])
  method : (parseHead head).method = ascii "GET"
  path : (parseHead head).path = ascii "/ws"
  key : ((parseHead head).headers.lookup (ascii "sec-websocket-key")).isSome
  bodyLen : (parseHead head).bodyLen = some body.length
  fits : head.length + 4 + body.length < 0x10000000000000000

def UpgradeRequest.text (req : UpgradeRequest) : Bytes := req.head ++ (crlf ++ crlf) ++ req.body

namespace ActivitySession

variable {env : ActivityEnv} {req : UpgradeRequest} {s : ActivitySession} {x c : Bytes}

theorem length_text (req : UpgradeRequest) :
    req.text.length = (req.head.length + 4 + req.body.length) % 0x10000000000000000 := by
  rw [Nat.mod_eq_of_lt req.fits, UpgradeRequest.text, List.length_append, List.length_append]
  rfl

/-- The session has read `x`, a part of the request. -/
structure Reading (s : ActivitySession) (x : Bytes) : Prop where
  httpBuffer : s.httpBuffer = x
  websocket : s.websocket = false
  seen : s.seen = []

/-! ## The request -/

theorem cut_text (req : UpgradeRequest) (extra : Bytes) :
    cut (crlf ++ crlf) (req.text ++ extra) = some (req.head, req.body ++ extra) := by
  have h := cut_extend req.head_end (req.body ++ extra)
  rwa [← List.append_assoc] at h

/-- With a part of the request in the buffer nothing is parsed. -/
theorem tryParseHttp_part (h : Reading s x) (hx : x <+: req.text) (hne : x ≠ req.text) :
    ∃ t, s.tryParseHttp = (t, none) ∧ Reading t x := by
  obtain ⟨z, hz⟩ := hx
  have hlt : x.length < req.text.length := by
    have hz0 : z ≠ [] := by
      rintro rfl
      exact hne (by rw [← hz, List.append_nil])
    have := List.length_pos_iff.2 hz0
    rw [← hz, List.length_append]
    omega
  unfold tryParseHttp
  rw [h.httpBuffer]
  cases hcut : cut (crlf ++ crlf) x with
  | none =>
    dsimp only
    split
    · exact ⟨_, rfl, h.httpBuffer, h.websocket, h.seen⟩
    · exact ⟨_, rfl, h⟩
  | some y =>
    obtain ⟨head, rest⟩ := y
    -- it is the header block of the request, and the body is not complete
    have hhead : head = req.head := by
      have h1 := cut_extend hcut z
      have h2 := cut_text req []
      rw [List.append_nil, ← hz, h1] at h2
      exact congrArg Prod.fst (Option.some.inj h2)
    subst hhead
    dsimp only
    rw [req.bodyLen]
    dsimp only
    rw [← length_text, if_pos hlt]
    exact ⟨_, rfl, h⟩

theorem handleHttp_upgrade (env : ActivityEnv) (s : ActivitySession) {r : HttpRequest}
    (hmethod : r.method = ascii "GET") (hpath : r.path = ascii "/ws")
    (hkey : (r.headers.lookup (ascii "sec-websocket-key")).isSome) :
    (s.handleHttp env r).websocket = true ∧ (s.handleHttp env r).seen = s.seen := by
  obtain ⟨key, hkey⟩ := Option.isSome_iff_exists.1 hkey
  rw [handleHttp, if_pos ⟨hmethod, hpath⟩, upgradeWebSocket, hkey]
  exact ⟨rfl, rfl⟩

theorem tryParseHttp_whole {extra : Bytes} (h : Reading s (req.text ++ extra)) :
    s.tryParseHttp =
      ({ s with httpBuffer := extra }, some { parseHead req.head with body := req.body }) := by
  have hcut : cut (crlf ++ crlf) s.httpBuffer = some (req.head, req.body ++ extra) := by
    rw [h.httpBuffer, cut_text]
  have hle : (req.head.length + 4 + req.body.length) % 0x10000000000000000 ≤
      s.httpBuffer.length := by
    rw [← length_text, h.httpBuffer, List.length_append]
    omega
  have hbody : (req.text ++ extra).drop (req.head.length + 4) = req.body ++ extra := by
    have hlen : req.head.length + 4 = (req.head ++ (crlf ++ crlf)).length := by
      rw [List.length_append]
      rfl
    rw [UpgradeRequest.text, List.append_assoc, hlen, List.drop_left]
  rw [tryParseHttp_complete hcut req.bodyLen hle, ← length_text, h.httpBuffer, List.drop_left,
    hbody, List.take_left]

/-- The chunk that completes the request turns the session over to frames; what
it brings beyond is not among them. -/
theorem processHttpBuffer_whole (env : ActivityEnv) {extra : Bytes}
    (h : Reading s (req.text ++ extra)) (fuel : Nat) :
    ∃ t, processHttpBuffer env (fuel + 1) s = some t ∧ t.websocket = true ∧ t.seen = [] := by
  have hrun := processHttpBuffer_succ env (tryParseHttp_whole h) fuel
  obtain ⟨hws, hseen⟩ := handleHttp_upgrade env { s with httpBuffer := extra }
    (r := { parseHead req.head with body := req.body }) req.method req.path req.key
  rw [stops, hws, Bool.true_or, if_pos rfl] at hrun
  exact ⟨_, hrun, hws, hseen.trans h.seen⟩

/-! ## Chunks -/

theorem processWsBuffer_seen (s : ActivitySession) :
    s.processWsBuffer.seen = s.seen ∧ s.processWsBuffer.websocket = s.websocket := by
  fun_induction processWsBuffer s
  case case1 | case2 | case3 => exact ⟨rfl, rfl⟩
  case case4 ih | case5 ih | case6 ih => exact ih

theorem fold_websocket (env : ActivityEnv) (fuel : Nat) (chunks : List Bytes) :
    ∀ {s : ActivitySession}, s.websocket = true →
    ∃ t, chunks.foldlM (onRecv env fuel) s = some t ∧ t.seen = s.seen ++ chunks.flatten := by
  induction chunks with
  | nil => intro s _; exact ⟨s, rfl, by rw [List.flatten_nil, List.append_nil]⟩
  | cons c chunks ih =>
    intro s hws
    obtain ⟨hseen, hws'⟩ := processWsBuffer_seen
      { s with wsBuffer := s.wsBuffer ++ c, seen := s.seen ++ c }
    obtain ⟨t, ht, hfinal⟩ := ih (hws'.trans hws)
    refine ⟨t, ?_, ?_⟩
    · rw [List.foldlM_cons, onRecv, if_pos hws]
      exact ht
    · rw [hfinal, hseen, List.flatten_cons, List.append_assoc]

theorem onRecv_http (env : ActivityEnv) (h : Reading s x) (fuel : Nat) (c : Bytes) :
    ∃ t, onRecv env fuel s c = processHttpBuffer env fuel t ∧ Reading t (x ++ c) := by
  refine ⟨{ s with httpBuffer := s.httpBuffer ++ c }, ?_, ?_⟩
  · rw [onRecv, if_neg (by rw [h.websocket]; decide)]
  · exact ⟨by rw [h.httpBuffer], h.websocket, h.seen⟩

/-- The rest of the chunks, once `x` has been read. -/
theorem fold_reading (fuel : Nat) (frames : Bytes) (chunks : List Bytes) :
    ∀ {s : ActivitySession} {x : Bytes}, Reading s x → x <+: req.text → x ≠ req.text →
    x ++ chunks.flatten = req.text ++ frames →
    ∃ t, chunks.foldlM (onRecv env (fuel + 1)) s = some t ∧
      (t.seen = frames ↔ ∃ before after, chunks = before ++ after ∧
        x ++ before.flatten = req.text) := by
  induction chunks with
  | nil =>
    intro s x _ hx hne hflat
    rw [List.flatten_nil, List.append_nil] at hflat
    have hlen := congrArg List.length hflat
    rw [List.length_append] at hlen
    exact absurd (hx.eq_of_length_le (by omega)) hne
  | cons c chunks ih =>
    intro s x hs hx hne hflat
    obtain ⟨u, hrecv, hu⟩ := onRecv_http env hs (fuel + 1) c
    rw [List.flatten_cons, ← List.append_assoc] at hflat
    rw [List.foldlM_cons, hrecv]
    by_cases hpart : x ++ c <+: req.text ∧ x ++ c ≠ req.text
    · obtain ⟨v, htry, hv⟩ := tryParseHttp_part hu hpart.1 hpart.2
      obtain ⟨t, ht, hseen⟩ := ih hv hpart.1 hpart.2 hflat
      refine ⟨t, ?_, hseen.trans ?_⟩
      · rw [processHttpBuffer_none htry]
        exact ht
      · -- the end of the request is in one of the later chunks
        constructor
        · rintro ⟨before, after, rfl, hbefore⟩
          exact ⟨c :: before, after, rfl, by rw [List.flatten_cons, ← List.append_assoc, hbefore]⟩
        · rintro ⟨before, after, hsplit, hbefore⟩
          cases before with
          | nil => exact absurd (by simpa using hbefore) hne
          | cons c' before =>
            cases hsplit
            exact ⟨before, after, rfl, by rw [← hbefore, List.flatten_cons, List.append_assoc]⟩
    · obtain ⟨extra, hextra⟩ : ∃ extra, x ++ c = req.text ++ extra := by
        have hpre : x ++ c <+: req.text ++ frames := ⟨chunks.flatten, hflat⟩
        obtain hle | hge := List.prefix_or_prefix_of_prefix hpre (List.prefix_append _ _)
        · by_contra hno
          exact hpart ⟨hle, fun he => hno ⟨[], by rw [he, List.append_nil]⟩⟩
        · obtain ⟨extra, he⟩ := hge
          exact ⟨extra, he.symm⟩
      rw [hextra] at hu
      obtain ⟨v, hrun, hws, hseen⟩ := processHttpBuffer_whole env hu fuel
      obtain ⟨t, ht, hfinal⟩ := fold_websocket env (fuel + 1) chunks hws
      rw [hextra, List.append_assoc] at hflat
      have hframes : frames = extra ++ chunks.flatten := (List.append_cancel_left hflat).symm
      refine ⟨t, ?_, ?_⟩
      · rw [hrun]
        exact ht
      · rw [hfinal, hseen, hframes, List.nil_append, List.self_eq_append_left]
        constructor
        · rintro rfl
          refine ⟨[c], chunks, rfl, ?_⟩
          rw [List.flatten_singleton, hextra, List.append_nil]
        · rintro ⟨before, after, hsplit, hbefore⟩
          cases before with
          | nil => exact absurd (by simpa using hbefore) hne
          | cons c' before =>
            cases hsplit
            rw [List.flatten_cons, ← List.append_assoc, hextra, List.append_assoc] at hbefore
            exact (List.append_eq_nil_iff.1 (List.append_right_eq_self.1 hbefore)).1

/-- However an upgrade request and the frames behind it are cut into chunks: the
bytes that `ProcessWsBuffer` sees are the frames iff one of the chunks ends with
the request. -/
theorem upgrade_keeps_bytes_iff (env : ActivityEnv) (fuel : Nat) (req : UpgradeRequest)
    (frames : Bytes) (chunks : List Bytes) (h : chunks.flatten = req.text ++ frames) :
    ∃ s, chunks.foldlM (onRecv env (fuel + 1)) {} = some s ∧
      (s.seen = frames ↔ ∃ before after, chunks = before ++ after ∧ before.flatten = req.text) := by
  have hne : [] ≠ req.text := by
    intro he
    have := congrArg List.length he
    simp [UpgradeRequest.text, crlf] at this
  exact fold_reading fuel frames chunks ⟨rfl, rfl, rfl⟩ List.nil_prefix hne h

def plainUpgrade : UpgradeRequest where
  head := ascii "GET /ws HTTP/1.1\r\nSec-WebSocket-Key: k"
  body := []
  head_end := by decide +kernel
  method := by decide +kernel
  path := by decide +kernel
  key := by decide +kernel
  bodyLen := by decide +kernel
  fits := by decide +kernel

def openEnv : ActivityEnv where
  webSocketAccept := id
  disconnecting _ := false

/-- A ping that comes in a chunk of its own is seen. -/
theorem upgrade_own_chunk :
    ∃ s, [plainUpgrade.text, wsFrame 0x9 []].foldlM (onRecv openEnv 1) {} = some s ∧
      s.seen = wsFrame 0x9 [] := by
  obtain ⟨s, hs, hseen⟩ := upgrade_keeps_bytes_iff openEnv 0 plainUpgrade (wsFrame 0x9 [])
    [plainUpgrade.text, wsFrame 0x9 []] (by simp)
  exact ⟨s, hs, hseen.2 ⟨[plainUpgrade.text], [wsFrame 0x9 []], rfl, by simp⟩⟩

/-- A ping that comes with the end of the request is left in `http_buffer_`. -/
theorem upgrade_same_chunk :
    ([plainUpgrade.text ++ wsFrame 0x9 []].foldlM (onRecv openEnv 1) {}).map
        (fun s => (s.websocket, s.seen, s.httpBuffer, s.received)) =
      some (true, [], wsFrame 0x9 [], []) := by
  decide +kernel

end ActivitySession

end ActivityServer

end IouringRuntime
