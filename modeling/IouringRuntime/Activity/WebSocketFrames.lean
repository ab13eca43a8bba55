import IouringRuntime.Activity.Upgrade
import IouringRuntime.Streaming.Decoder

/-!
# WebSocket framing

What `ProcessWsBuffer` does with a stream is `frameDecoder.parse`, whatever the
chunks, and a frame written as `SendWsFrame` writes it, masked or not, is read
back as it is (`nextFrame_encode`). The three forms of the length meet in
`frameLength_head`.
-/

namespace IouringRuntime

open Streaming

namespace ActivityServer

/-! ## Lengths -/

theorem ofBigEndian_append (bytes : Bytes) (b : UInt8) :
    ofBigEndian (bytes ++ [b]) = ofBigEndian bytes * 256 + b.toNat := by
  rw [ofBigEndian, List.foldl_append, List.foldl_cons, List.foldl_nil,
    ← Nat.shiftLeft_add_eq_or_of_lt b.toNat_lt, Nat.shiftLeft_eq]
  rfl

theorem bigEndian_succ (n len : Nat) :
    bigEndian (n + 1) len = bigEndian n (len >>> 8) ++ [UInt8.ofNat (len &&& 0xff)] := by
  rw [bigEndian, List.range_succ, List.map_append, List.map_singleton, bigEndian]
  congr 1
  · refine List.map_congr_left fun i hi => ?_
    have hlt := List.mem_range.1 hi
    rw [← Nat.shiftRight_add, show 8 + (n - 1 - i) * 8 = (n + 1 - 1 - i) * 8 by omega]
  · simp

theorem ofBigEndian_bigEndian (n : Nat) : ∀ len, ofBigEndian (bigEndian n len) = len % 256 ^ n := by
  induction n with
  | zero => intro len; simp [bigEndian, ofBigEndian, Nat.mod_one]
  | succ n ih =>
    intro len
    have hbyte : (UInt8.ofNat (len &&& 0xff)).toNat = len % 256 := by
      rw [show (0xff : Nat) = 2 ^ 8 - 1 from rfl, Nat.and_two_pow_sub_one_eq_mod,
        UInt8.toNat_ofNat_of_lt' (Nat.mod_lt _ (by decide))]
    have hpow : 256 ^ (n + 1) = 256 * 256 ^ n := Nat.pow_succ'
    rw [bigEndian_succ, ofBigEndian_append, ih, hbyte, Nat.shiftRight_eq_div_pow, hpow,
      Nat.mod_mul, Nat.add_comm, Nat.mul_comm]

theorem length_bigEndian (n len : Nat) : (bigEndian n len).length = n := by
  rw [bigEndian, List.length_map, List.length_range]

/-- The mask bit. -/
def maskBit (masked : Bool) : UInt8 := if masked then 0x80 else 0

/-- The second byte of a frame says whether there is a mask, and how long the
frame is or how to read its length. -/
theorem maskBit_or (masked : Bool) {b : UInt8} (hb : b < 128) :
    (maskBit masked ||| b) &&& 0x7f = b ∧
      ((maskBit masked ||| b) &&& 0x80 ≠ 0 ↔ masked = true) := by
  revert hb
  refine Hls.forall_byte (P := fun b => b < 128 → (maskBit masked ||| b) &&& 0x7f = b ∧
    ((maskBit masked ||| b) &&& 0x80 ≠ 0 ↔ masked = true)) ?_ b
  cases masked <;> decide +kernel

theorem frameLength_short {b1 : UInt8} {len : Nat} (h : b1 &&& 0x7f = UInt8.ofNat len)
    (hlen : len < 126) (buffer : Bytes) : frameLength b1 buffer = some (len, 2) := by
  have hnat : (UInt8.ofNat len).toNat = len := UInt8.toNat_ofNat_of_lt' (by omega : len < 256)
  have hne : ∀ b : UInt8, 126 ≤ b.toNat → UInt8.ofNat len ≠ b := by
    intro b hb he
    rw [← he, hnat] at hb
    omega
  rw [frameLength, h, if_neg (hne 126 (by decide)), if_neg (hne 127 (by decide)), hnat]

/-- A length of `n` bytes behind the first two of a frame is there and is read back. -/
theorem read_bigEndian {n len : Nat} (hlen : len < 256 ^ n) (b0 b1 : UInt8) (y : Bytes) :
    ¬ (b0 :: b1 :: (bigEndian n len ++ y)).length < 2 + n ∧
      ofBigEndian (((b0 :: b1 :: (bigEndian n len ++ y)).drop 2).take n) = len := by
  constructor
  · simp only [List.length_cons, List.length_append, length_bigEndian]
    omega
  · show ofBigEndian ((bigEndian n len ++ y).take n) = len
    rw [List.take_left' (length_bigEndian n len), ofBigEndian_bigEndian, Nat.mod_eq_of_lt hlen]

theorem frameLength_126 {b0 b1 : UInt8} {len : Nat} (h : b1 &&& 0x7f = 126) (hlen : len < 65536)
    (y : Bytes) : frameLength b1 (b0 :: b1 :: (bigEndian 2 len ++ y)) = some (len, 4) := by
  obtain ⟨hlong, hread⟩ := read_bigEndian (n := 2) hlen b0 b1 y
  rw [frameLength, if_pos h, if_neg hlong, hread]

theorem frameLength_127 {b0 b1 : UInt8} {len : Nat} (h : b1 &&& 0x7f = 127)
    (hlen : len < 0x10000000000000000) (y : Bytes) :
    frameLength b1 (b0 :: b1 :: (bigEndian 8 len ++ y)) = some (len, 10) := by
  obtain ⟨hlong, hread⟩ := read_bigEndian (n := 8) hlen b0 b1 y
  rw [frameLength, if_neg (by rw [h]; decide), if_pos h, if_neg hlong, hread]

/-- The declared length is read back, in each of its three forms. -/
theorem frameLength_head (masked : Bool) (opcode : UInt8) {len : Nat}
    (hlen : len < 0x10000000000000000) :
    ∃ b1 ext, frameHead (maskBit masked) opcode len = (0x80 ||| opcode) :: b1 :: ext ∧
      (b1 &&& 0x80 ≠ 0 ↔ masked = true) ∧
      ∀ y, frameLength b1 ((0x80 ||| opcode) :: b1 :: (ext ++ y)) = some (len, 2 + ext.length) := by
  unfold frameHead
  split
  · next h =>
    have hlt : UInt8.ofNat len < 128 := by
      rw [UInt8.lt_iff_toNat_lt, UInt8.toNat_ofNat_of_lt' (by omega : len < 256)]
      exact Nat.lt_trans h (by decide)
    obtain ⟨h1, h2⟩ := maskBit_or masked hlt
    exact ⟨_, [], rfl, h2, fun y => frameLength_short h1 h _⟩
  · split
    · next h =>
      obtain ⟨h1, h2⟩ := maskBit_or masked (by decide : (126 : UInt8) < 128)
      refine ⟨_, bigEndian 2 len, rfl, h2, fun y => ?_⟩
      rw [frameLength_126 h1 (by omega), length_bigEndian]
    · obtain ⟨h1, h2⟩ := maskBit_or masked (by decide : (127 : UInt8) < 128)
      refine ⟨_, bigEndian 8 len, rfl, h2, fun y => ?_⟩
      rw [frameLength_127 h1 hlen, length_bigEndian]

/-! ## Frames -/

theorem length_applyMask (mask payload : Bytes) :
    (applyMask mask payload).length = payload.length := List.length_mapIdx

theorem applyMask_applyMask (mask payload : Bytes) :
    applyMask mask (applyMask mask payload) = payload := by
  refine List.ext_getElem (by rw [length_applyMask, length_applyMask]) fun i h1 h2 => ?_
  simp only [applyMask, List.getElem_mapIdx, UInt8.xor_assoc, UInt8.xor_self, UInt8.xor_zero]

inductive WsKind where
  | text | ping
  deriving DecidableEq, Repr

def WsKind.opcode : WsKind → UInt8
  | .text => 0x1
  | .ping => 0x9

/-- A frame as a client sends it: with the mask's key, or without one as the
server does. -/
structure WsFrame where
  kind : WsKind
  payload : Bytes
  key : Option Bytes
  payload_le : payload.length ≤ 1024 * 1024
  key_length : ∀ k ∈ key, k.length = 4

namespace WsFrame

def content (f : WsFrame) : UInt8 × Bytes := (f.kind.opcode, f.payload)

def encode (f : WsFrame) : Bytes :=
  match f.key with
  | none => wsFrame f.kind.opcode f.payload
  | some key =>
    frameHead 0x80 f.kind.opcode f.payload.length ++ key ++ applyMask key f.payload

end WsFrame

theorem opcode_and (kind : WsKind) : (0x80 ||| kind.opcode) &&& 0x0f = kind.opcode := by
  cases kind <;> decide

section Front

variable {b0 b1 : UInt8} {ext : Bytes} {len : Nat}

/-- A complete frame without a mask. -/
theorem nextFrame_plain {payload : Bytes} (hmask : ¬ b1 &&& 0x80 ≠ 0)
    (hle : payload.length ≤ 1024 * 1024)
    (hlen : ∀ y, frameLength b1 (b0 :: b1 :: (ext ++ y)) = some (payload.length, 2 + ext.length))
    (y : Bytes) :
    nextFrame (b0 :: b1 :: (ext ++ (payload ++ y))) =
      .frame (b0 &&& 0x0f) payload (2 + ext.length + payload.length) := by
  have hdrop : (b0 :: b1 :: (ext ++ (payload ++ y))).drop (2 + ext.length) = payload ++ y := by
    rw [Nat.add_comm]
    exact List.drop_left
  have hlong : ¬ (b0 :: b1 :: (ext ++ (payload ++ y))).length <
      2 + ext.length + payload.length := by
    simp only [List.length_cons, List.length_append]
    omega
  rw [nextFrame, hlen]
  dsimp only
  rw [if_neg (by omega), if_neg hmask, if_neg hlong, hdrop, List.take_left]

/-- A complete frame with a mask. -/
theorem nextFrame_masked {key payload : Bytes} (hmask : b1 &&& 0x80 ≠ 0) (hkey : key.length = 4)
    (hle : payload.length ≤ 1024 * 1024)
    (hlen : ∀ y, frameLength b1 (b0 :: b1 :: (ext ++ y)) = some (payload.length, 2 + ext.length))
    (y : Bytes) :
    nextFrame (b0 :: b1 :: (ext ++ (key ++ (applyMask key payload ++ y)))) =
      .frame (b0 &&& 0x0f) payload (2 + ext.length + 4 + payload.length) := by
  have hdrop : (b0 :: b1 :: (ext ++ (key ++ (applyMask key payload ++ y)))).drop (2 + ext.length) =
      key ++ (applyMask key payload ++ y) := by
    rw [Nat.add_comm]
    exact List.drop_left
  have hdrop' : (b0 :: b1 :: (ext ++ (key ++ (applyMask key payload ++ y)))).drop
      (2 + ext.length + 4) = applyMask key payload ++ y := by
    rw [← List.drop_drop, hdrop, ← hkey, List.drop_left]
  have hlong : ¬ (b0 :: b1 :: (ext ++ (key ++ (applyMask key payload ++ y)))).length <
      2 + ext.length + 4 + payload.length := by
    simp only [List.length_cons, List.length_append, length_applyMask, hkey]
    omega
  rw [nextFrame, hlen]
  dsimp only
  rw [if_neg (by omega), if_pos hmask, if_neg (by omega), if_neg hlong, hdrop, hdrop',
    List.take_left' hkey, List.take_left' (length_applyMask key payload), applyMask_applyMask]

end Front

theorem nextFrame_encode (f : WsFrame) (y : Bytes) :
    nextFrame (f.encode ++ y) = .frame f.kind.opcode f.payload f.encode.length := by
  have hlt : f.payload.length < 0x10000000000000000 := by
    have := f.payload_le
    omega
  unfold WsFrame.encode
  cases hk : f.key with
  | none =>
    obtain ⟨b1, ext, hhead, hmask, hlen⟩ := frameLength_head false f.kind.opcode hlt
    have hencode : wsFrame f.kind.opcode f.payload =
        (0x80 ||| f.kind.opcode) :: b1 :: (ext ++ f.payload) := by
      rw [wsFrame, show (0 : UInt8) = maskBit false from rfl, hhead]
      rfl
    have hplain := nextFrame_plain (mt hmask.1 (by decide)) f.payload_le hlen y
    rw [opcode_and] at hplain
    dsimp only
    rw [hencode, List.cons_append, List.cons_append, List.append_assoc, hplain]
    simp only [List.length_cons, List.length_append]
    congr 1
    omega
  | some key =>
    have hkey := f.key_length key hk
    obtain ⟨b1, ext, hhead, hmask, hlen⟩ := frameLength_head true f.kind.opcode hlt
    have hencode : frameHead 0x80 f.kind.opcode f.payload.length ++ key ++ applyMask key f.payload =
        (0x80 ||| f.kind.opcode) :: b1 :: (ext ++ (key ++ applyMask key f.payload)) := by
      rw [show (0x80 : UInt8) = maskBit true from rfl, hhead, List.append_assoc]
      rfl
    have hmasked := nextFrame_masked (hmask.2 rfl) hkey f.payload_le hlen y
    rw [opcode_and] at hmasked
    dsimp only
    rw [hencode, List.cons_append, List.cons_append, List.append_assoc, List.append_assoc, hmasked]
    simp only [List.length_cons, List.length_append, length_applyMask, hkey]
    congr 1
    omega

/-- A length above 1 MiB is rejected as soon as it is there. -/
theorem nextFrame_tooLong (masked : Bool) (b0 : UInt8) {len : Nat} (hlong : 1024 * 1024 < len)
    (hlen : len < 0x10000000000000000) (y : Bytes) :
    nextFrame (b0 :: (maskBit masked ||| 127) :: (bigEndian 8 len ++ y)) = .tooLong := by
  obtain ⟨h1, -⟩ := maskBit_or masked (by decide : (127 : UInt8) < 128)
  rw [nextFrame, frameLength_127 h1 hlen]
  dsimp only
  rw [if_pos hlong]

/-! ## The decoder -/

/-- What is read from inside a buffer does not change when the buffer goes on. -/
theorem take_drop_append {x : Bytes} {i n : Nat} (h : i + n ≤ x.length) (y : Bytes) :
    ((x ++ y).drop i).take n = (x.drop i).take n := by
  rw [List.drop_append_of_le_length (by omega), List.take_append_of_le_length]
  rw [List.length_drop]
  omega

theorem frameLength_append {b1 : UInt8} {buffer : Bytes} {x : Nat × Nat}
    (h : frameLength b1 buffer = some x) (y : Bytes) : frameLength b1 (buffer ++ y) = some x := by
  unfold frameLength at h ⊢
  have hle : buffer.length ≤ (buffer ++ y).length := by
    rw [List.length_append]
    omega
  split at h
  · next h126 =>
    split at h
    · cases h
    · rw [if_pos h126, if_neg (by omega), take_drop_append (by omega)]
      exact h
  · next h126 =>
    rw [if_neg h126]
    split at h
    · next h127 =>
      split at h
      · cases h
      · rw [if_pos h127, if_neg (by omega), take_drop_append (by omega)]
        exact h
    · next h127 =>
      rw [if_neg h127]
      exact h

theorem nextFrame_append {buffer : Bytes} (h : nextFrame buffer ≠ .incomplete) (y : Bytes) :
    nextFrame (buffer ++ y) = nextFrame buffer := by
  cases buffer with
  | nil => exact absurd rfl h
  | cons b0 buffer =>
    cases buffer with
    | nil => exact absurd rfl h
    | cons b1 rest =>
      have hle : (b0 :: b1 :: rest).length ≤ (b0 :: b1 :: (rest ++ y)).length := by
        simp only [List.length_cons, List.length_append]
        omega
      have htake : ∀ {i n}, i + n ≤ (b0 :: b1 :: rest).length →
          ((b0 :: b1 :: (rest ++ y)).drop i).take n = ((b0 :: b1 :: rest).drop i).take n :=
        fun h => take_drop_append h y
      rw [List.cons_append, List.cons_append]
      unfold nextFrame at h ⊢
      cases hlen : frameLength b1 (b0 :: b1 :: rest) with
      | none =>
        simp only [hlen] at h
        exact absurd rfl h
      | some x =>
        have happ : frameLength b1 (b0 :: b1 :: (rest ++ y)) = some x := frameLength_append hlen y
        simp only [hlen, happ] at h ⊢
        split
        · rfl
        · next hlong =>
          rw [if_neg hlong] at h
          split
          · next hmask =>
            rw [if_pos hmask] at h
            split at h
            · exact absurd rfl h
            · split at h
              · exact absurd rfl h
              · next h4 hsize =>
                rw [if_neg (by omega), if_neg (by omega), if_neg h4, if_neg hsize,
                  htake (by omega), htake (by omega)]
          · next hmask =>
            rw [if_neg hmask] at h
            split at h
            · exact absurd rfl h
            · next hsize => rw [if_neg (by omega), if_neg hsize, htake (by omega)]

/-- The frame at the front of a stream; a close frame ends it. -/
def nextItem (x : Bytes) : Verdict (UInt8 × Bytes) :=
  match nextFrame x with
  | .incomplete => .more
  | .tooLong => .bad
  | .frame opcode payload size => if opcode = 0x8 then .bad else .item (opcode, payload) size

theorem nextItem_append {x : Bytes} (h : nextItem x ≠ .more) (y : Bytes) :
    nextItem (x ++ y) = nextItem x := by
  have hnext : nextFrame x ≠ .incomplete := by
    intro he
    exact h (by rw [nextItem, he])
  rw [nextItem, nextFrame_append hnext, nextItem]

def frameDecoder : Decoder UInt8 (UInt8 × Bytes) where
  next := nextItem
  size := by
    intro x a n h
    unfold nextItem at h
    split at h
    · cases h
    · cases h
    · next hframe =>
      split at h
      · cases h
      · cases h
        have := nextFrame_size hframe
        omega
  item_append := by
    intro x a n h y
    rw [nextItem_append (by rw [h]; exact fun he => (by cases he)), h]
  bad_append := by
    intro x h y
    rw [nextItem_append (by rw [h]; exact fun he => (by cases he)), h]

theorem word_encode (f : WsFrame) : frameDecoder.Word f.content f.encode := by
  intro y
  show nextItem (f.encode ++ y) = _
  have hne : f.kind.opcode ≠ 0x8 := by cases f.kind <;> decide
  rw [nextItem, nextFrame_encode]
  exact if_neg hne

/-! ## The session -/

/-- What the session does about a frame. -/
def handled (x : UInt8 × Bytes) : List ActivityCall :=
  if x.1 = 0x9 then [.sendRaw (wsFrame 0xA x.2)]
  else if x.1 = 0x1 then [.handleWsText x.2]
  else []

namespace ActivitySession

/-- The session is what `s` becomes by decoding a stream to `p`. -/
structure Decoded (s t : ActivitySession) (p : Parsed UInt8 (UInt8 × Bytes)) : Prop where
  websocket : t.websocket = true
  received : p.rest.isSome → t.received = s.received ++ p.items
  calls : p.rest.isSome → t.calls = s.calls ++ p.items.flatMap handled
  wsBuffer : ∀ r ∈ p.rest, t.wsBuffer = r

section Decoded

variable {s s' t : ActivitySession} {p : Parsed UInt8 (UInt8 × Bytes)}

/-- A frame in front of the stream. -/
theorem Decoded.cons {x : UInt8 × Bytes} (hreceived : s'.received = s.received ++ [x])
    (hcalls : s'.calls = s.calls ++ handled x) (h : Decoded s' t p) :
    Decoded s t ⟨x :: p.items, p.rest⟩ := by
  refine ⟨h.websocket, fun hr => ?_, fun hr => ?_, h.wsBuffer⟩
  · rw [h.received hr, hreceived, List.append_assoc, List.singleton_append]
  · rw [h.calls hr, hcalls, List.append_assoc, List.flatMap_cons]

theorem Decoded.rejected (h : t.websocket = true) : Decoded s t ⟨[], none⟩ :=
  ⟨h, fun hr => (by cases hr), fun hr => (by cases hr), fun _ hr => (by cases hr)⟩

theorem parse_frame {x payload : Bytes} {opcode : UInt8} {size : Nat}
    (h : nextFrame x = .frame opcode payload size) (hop : opcode ≠ 0x8) :
    frameDecoder.parse x = ⟨(opcode, payload) :: (frameDecoder.parse (x.drop size)).items,
      (frameDecoder.parse (x.drop size)).rest⟩ := by
  refine Decoder.parse_item ?_
  show nextItem x = _
  rw [nextItem, h]
  exact if_neg hop

theorem processWsBuffer_decoded (s : ActivitySession) (hws : s.websocket = true) :
    Decoded s s.processWsBuffer (frameDecoder.parse s.wsBuffer) := by
  fun_induction processWsBuffer s with
  | case1 s h =>
    have hmore : frameDecoder.next s.wsBuffer = .more := by
      show nextItem s.wsBuffer = _
      rw [nextItem, h]
    rw [Decoder.parse_more hmore]
    exact ⟨hws, fun _ => (List.append_nil _).symm, fun _ => (List.append_nil _).symm,
      fun r hr => Option.some.inj hr⟩
  | case2 s h =>
    have hbad : frameDecoder.next s.wsBuffer = .bad := by
      show nextItem s.wsBuffer = _
      rw [nextItem, h]
    rw [Decoder.parse_bad hbad]
    exact .rejected hws
  | case3 s payload size h =>
    have hbad : frameDecoder.next s.wsBuffer = .bad := by
      show nextItem s.wsBuffer = _
      rw [nextItem, h]
      rfl
    rw [Decoder.parse_bad hbad]
    exact .rejected hws
  | case4 s payload size h _ _ ih =>
    rw [parse_frame h (by decide)]
    exact Decoded.cons rfl rfl (ih hws)
  | case5 s payload size h _ _ _ ih =>
    rw [parse_frame h (by decide)]
    exact Decoded.cons rfl rfl (ih hws)
  | case6 s opcode payload size h s' h8 h9 h1 ih =>
    have hnone : handled (opcode, payload) = [] := by
      rw [handled, if_neg h9, if_neg h1]
    rw [parse_frame h h8]
    refine Decoded.cons rfl ?_ (ih hws)
    rw [hnone, List.append_nil]

/-- A session that is given chunk after chunk decodes the stream. -/
theorem onRecv_receives (env : ActivityEnv) (fuel : Nat) (s : ActivitySession) :
    frameDecoder.Receives (onRecv env fuel) (Decoded s) := by
  rintro t ⟨items, rest⟩ h chunk
  refine ⟨_, by rw [onRecv, if_pos h.websocket], ?_⟩
  have hd := processWsBuffer_decoded
    { t with wsBuffer := t.wsBuffer ++ chunk, seen := t.seen ++ chunk } h.websocket
  cases rest with
  | none => exact ⟨hd.websocket, fun hr => (by cases hr), fun hr => (by cases hr),
      fun _ hr => (by cases hr)⟩
  | some r =>
    obtain rfl := h.wsBuffer r rfl
    refine ⟨hd.websocket, fun hr => ?_, fun hr => ?_, hd.wsBuffer⟩
    · rw [hd.received hr]
      show t.received ++ _ = s.received ++ (items ++ _)
      rw [h.received rfl, List.append_assoc]
    · rw [hd.calls hr]
      show t.calls ++ _ = s.calls ++ (items ++ _).flatMap handled
      rw [h.calls rfl, List.flatMap_append, List.append_assoc]

theorem nextItem_nil : frameDecoder.next [] = .more := rfl

/-- Whatever the chunks, an empty buffer becomes what decoding the stream leaves. -/
theorem fold_decoded (env : ActivityEnv) (fuel : Nat) (hws : s.websocket = true)
    (hbuf : s.wsBuffer = []) (chunks : List Bytes) :
    ∃ t, chunks.foldlM (onRecv env fuel) s = some t ∧
      Decoded s t (frameDecoder.parse chunks.flatten) := by
  refine Decoder.Receives.fold (onRecv_receives env fuel s) chunks (x := []) ?_
  rw [Decoder.parse_more nextItem_nil]
  exact ⟨hws, fun _ => (List.append_nil _).symm, fun _ => (List.append_nil _).symm,
    fun r hr => hbuf.trans (Option.some.inj hr)⟩

end Decoded

theorem processWsBuffer_tooLong {s : ActivitySession} (h : nextFrame s.wsBuffer = .tooLong) :
    s.processWsBuffer = s.call .disconnect := by
  unfold processWsBuffer
  split
  · next h' => cases h.symm.trans h'
  · rfl
  · next h' => cases h.symm.trans h'

/-- The stream of frames. -/
def encodeAll (frames : List WsFrame) : Bytes := frames.flatMap WsFrame.encode

/-- `r` breaks off inside the first of the frames; it is empty if there is none. -/
def BreaksOff (r : Bytes) : List WsFrame → Prop
  | [] => r = []
  | f :: _ => r <+: f.encode ∧ r ≠ f.encode

/-- Frames as they are sent and what is read, together. -/
theorem encodeAll_eq (frames : List WsFrame) :
    encodeAll frames = ((frames.map fun f => (f.content, f.encode)).map Prod.snd).flatten := by
  rw [encodeAll, List.map_map, List.flatMap_def]
  rfl

theorem word_sent (frames : List WsFrame) :
    ∀ e ∈ frames.map fun f => (f.content, f.encode), frameDecoder.Word e.1 e.2 := by
  intro e he
  obtain ⟨f, -, rfl⟩ := List.mem_map.1 he
  exact word_encode f

theorem parse_encodeAll (frames : List WsFrame) :
    frameDecoder.parse (encodeAll frames) = ⟨frames.map WsFrame.content, some []⟩ := by
  have h := Decoder.parse_words (word_sent frames) []
  rw [Decoder.parse_more nextItem_nil, List.append_nil, List.append_nil] at h
  rw [encodeAll_eq, h, List.map_map]
  rfl

theorem parse_encodeAll_part {frames : List WsFrame} {x : Bytes} (hx : x <+: encodeAll frames) :
    ∃ before after r, frames = before ++ after ∧
      frameDecoder.parse x = ⟨before.map WsFrame.content, some r⟩ ∧ BreaksOff r after := by
  rw [encodeAll_eq] at hx
  obtain ⟨before, after, r, hsplit, hparse, hend, hpart⟩ :=
    Decoder.parse_part nextItem_nil (word_sent frames) hx
  obtain ⟨fs, gs, rfl, rfl, rfl⟩ := List.map_eq_append_iff.1 hsplit
  refine ⟨fs, gs, r, rfl, ?_, ?_⟩
  · rw [hparse, List.map_map]
    rfl
  · cases gs with
    | nil => exact hend rfl
    | cons f gs => exact hpart _ rfl

/-- **WebSocket framing.** A session with an empty `ws_buffer_` recovers the
frames of a stream however it is cut, answers each of them, and leaves the buffer
empty; a stream that breaks off leaves a strict part of a frame in it; and a
declared length above 1 MiB disconnects with the buffer as it is. -/
theorem websocket_roundtrip (env : ActivityEnv) (fuel : Nat) {s : ActivitySession}
    (hws : s.websocket = true) (hbuf : s.wsBuffer = []) (frames : List WsFrame) :
    (∀ chunks : List Bytes, chunks.flatten = encodeAll frames →
      ∃ t, chunks.foldlM (onRecv env fuel) s = some t ∧
        t.received = s.received ++ frames.map WsFrame.content ∧
        t.calls = s.calls ++ (frames.map WsFrame.content).flatMap handled ∧ t.wsBuffer = []) ∧
    (∀ chunks : List Bytes, chunks.flatten <+: encodeAll frames →
      ∃ t before after, chunks.foldlM (onRecv env fuel) s = some t ∧ frames = before ++ after ∧
        t.received = s.received ++ before.map WsFrame.content ∧ BreaksOff t.wsBuffer after) ∧
    ∀ (t : ActivitySession) (chunk : Bytes) (masked : Bool) (b0 : UInt8) (len : Nat) (rest : Bytes),
      t.websocket = true → 1024 * 1024 < len → len < 0x10000000000000000 →
      t.wsBuffer ++ chunk = b0 :: (maskBit masked ||| 127) :: (bigEndian 8 len ++ rest) →
      onRecv env fuel t chunk = some { t with
        wsBuffer := t.wsBuffer ++ chunk, seen := t.seen ++ chunk
        calls := t.calls ++ [.disconnect] } := by
  refine ⟨fun chunks he => ?_, fun chunks hpre => ?_, ?_⟩
  · obtain ⟨t, ht, hd⟩ := fold_decoded env fuel hws hbuf chunks
    rw [he, parse_encodeAll] at hd
    exact ⟨t, ht, hd.received rfl, hd.calls rfl, hd.wsBuffer [] rfl⟩
  · obtain ⟨t, ht, hd⟩ := fold_decoded env fuel hws hbuf chunks
    obtain ⟨before, after, r, hsplit, hparse, hpart⟩ := parse_encodeAll_part hpre
    rw [hparse] at hd
    refine ⟨t, before, after, ht, hsplit, hd.received rfl, ?_⟩
    rw [hd.wsBuffer r rfl]
    exact hpart
  · intro t chunk masked b0 len rest hws' hlong hlen hbuffer
    have hnext := nextFrame_tooLong masked b0 hlong hlen rest
    rw [← hbuffer] at hnext
    rw [onRecv, if_pos hws', processWsBuffer_tooLong hnext]
    rfl

/-- A masked text and a ping, cut inside the key. -/
theorem websocket_roundtrip_cut :
    ∃ t, [[0x81, 0x82, 1, 2], [3, 4, 0x60, 0x60, 0x89], [0]].foldlM (onRecv openEnv 0)
        { websocket := true } = some t ∧
      t.received = [(0x1, ascii "ab"), (0x9, [])] ∧ t.wsBuffer = [] := by
  obtain ⟨h, -⟩ := websocket_roundtrip openEnv 0 (s := { websocket := true }) rfl rfl
    [⟨.text, ascii "ab", some [1, 2, 3, 4], by decide, by decide⟩,
      ⟨.ping, [], none, by decide, by decide⟩]
  obtain ⟨t, ht, hreceived, -, hbuf⟩ := h [[0x81, 0x82, 1, 2], [3, 4, 0x60, 0x60, 0x89], [0]]
    (by decide +kernel)
  exact ⟨t, ht, hreceived, hbuf⟩

end ActivitySession

end ActivityServer

end IouringRuntime
