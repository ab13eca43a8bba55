import IouringRuntime.Streaming.Decoder
import IouringRuntime.Game.PacketSession

/-!
# Packet framing

What a packet session does with a stream is `packetDecoder.parse`, whatever the
chunks: `recv_buffer_` holds the bytes of the packet that is not complete, and
since a packet is at most 65535 bytes it never overflows. Packets written by
`PacketBuilder::Build` are read back as they are.
-/

namespace IouringRuntime

open Streaming PacketBuilder

namespace PacketSession

/-! ## The decoder -/

/-- The packet at the front of a stream. -/
def nextPacket (x : Bytes) : Verdict Packet :=
  if x.length < kHeaderSize then .more
  else if (readLe16 x).toNat < kHeaderSize then .bad
  else if x.length < (readLe16 x).toNat then .more
  else .item
    ⟨readLe16 (x.drop 2), (x.drop kHeaderSize).take ((readLe16 x).toNat - kHeaderSize)⟩
    (readLe16 x).toNat

theorem readLe16_append {x : Bytes} (h : 2 ≤ x.length) (y : Bytes) :
    readLe16 (x ++ y) = readLe16 x := by
  match x, h with
  | a :: b :: x, _ => rfl

theorem readLe16_take {n : Nat} (h : 2 ≤ n) (x : Bytes) : readLe16 (x.take n) = readLe16 x := by
  match n, h, x with
  | n + 2, _, [] => rfl
  | n + 2, _, [_] => rfl
  | n + 2, _, _ :: _ :: _ => rfl

theorem nextPacket_short {x : Bytes} (h : x.length < kHeaderSize) : nextPacket x = .more :=
  if_pos h

section Header

variable {x : Bytes} (h : ¬ x.length < kHeaderSize)

include h

theorem nextPacket_bad (hs : (readLe16 x).toNat < kHeaderSize) : nextPacket x = .bad := by
  rw [nextPacket, if_neg h, if_pos hs]

variable (hs : ¬ (readLe16 x).toNat < kHeaderSize)

include hs

theorem nextPacket_more (hl : x.length < (readLe16 x).toNat) : nextPacket x = .more := by
  rw [nextPacket, if_neg h, if_neg hs, if_pos hl]

theorem nextPacket_item (hl : ¬ x.length < (readLe16 x).toNat) :
    nextPacket x = .item ⟨readLe16 (x.drop 2),
      (x.drop kHeaderSize).take ((readLe16 x).toNat - kHeaderSize)⟩ (readLe16 x).toNat := by
  rw [nextPacket, if_neg h, if_neg hs, if_neg hl]

end Header

/-- What an `item` verdict says. -/
theorem item_cases {x : Bytes} {p : Packet} {n : Nat} (h : nextPacket x = .item p n) :
    ¬ x.length < kHeaderSize ∧ n = (readLe16 x).toNat ∧ ¬ n < kHeaderSize ∧ ¬ x.length < n ∧
      p = ⟨readLe16 (x.drop 2), (x.drop kHeaderSize).take (n - kHeaderSize)⟩ := by
  unfold nextPacket at h
  split at h
  · cases h
  · split at h
    · cases h
    · split at h
      · cases h
      · cases h
        exact ⟨‹_›, rfl, ‹_›, ‹_›, rfl⟩

def packetDecoder : Decoder UInt8 Packet where
  next := nextPacket
  size := by
    intro x p n h
    obtain ⟨-, -, hs, hl, -⟩ := item_cases h
    unfold kHeaderSize at hs
    omega
  item_append := by
    intro x p n h y
    obtain ⟨h4, rfl, hs, hl, rfl⟩ := item_cases h
    unfold kHeaderSize at *
    have hsize : readLe16 (x ++ y) = readLe16 x := readLe16_append (by omega) y
    have hlen : ¬ (x ++ y).length < 4 := by rw [List.length_append]; omega
    have hdrop : ∀ k, k ≤ 4 → (x ++ y).drop k = x.drop k ++ y := fun k hk =>
      List.drop_append_of_le_length (by omega)
    have hid : readLe16 (x.drop 2 ++ y) = readLe16 (x.drop 2) :=
      readLe16_append (by rw [List.length_drop]; omega) y
    have hpay : (x.drop 4 ++ y).take ((readLe16 x).toNat - 4) =
        (x.drop 4).take ((readLe16 x).toNat - 4) :=
      List.take_append_of_le_length (by rw [List.length_drop]; omega)
    rw [nextPacket_item hlen (by rwa [hsize]) (by rw [hsize, List.length_append]; omega), hsize]
    unfold kHeaderSize
    rw [hdrop 2 (by omega), hdrop 4 (by omega), hid, hpay]
  bad_append := by
    intro x h y
    unfold nextPacket at h
    split at h
    · cases h
    · next h4 =>
      split at h
      · next hs =>
        unfold kHeaderSize at *
        have hsize : readLe16 (x ++ y) = readLe16 x := readLe16_append (by omega) y
        exact nextPacket_bad (by rw [List.length_append]; unfold kHeaderSize; omega) (by rwa [hsize])
      · split at h <;> cases h

/-! ## The reassembly buffer -/

/-- The buffer of a packet session holds `r`. -/
structure Buffers (b : RecvBuffer) (r : Bytes) : Prop where
  wellFormed : b.WellFormed
  capacity : b.capacity = 65536
  region : b.readRegion = r

namespace Buffers

variable {b : RecvBuffer} {r : Bytes}

theorem readableSize (h : Buffers b r) : b.readableSize = r.length := by
  rw [h.wellFormed.readableSize_eq, ← h.region, h.wellFormed.length_readRegion]

theorem isEmpty_iff (h : Buffers b r) : b.isEmpty = true ↔ r = [] := by
  rw [← h.wellFormed.readRegion_eq_nil_iff, h.region]

theorem append (h : Buffers b r) {data : Bytes} (hd : r.length + data.length ≤ 65536) :
    (b.append data).2 = true ∧ Buffers (b.append data).1 (r ++ data) := by
  obtain ⟨hok, hcap⟩ := h.wellFormed.append_fits data
    (by rw [h.region, h.capacity]; exact hd)
  obtain ⟨hwf, hreg⟩ := h.wellFormed.append (by omega : data.length < 2 ^ 32)
  rw [hok, if_pos rfl, h.region] at hreg
  exact ⟨hok, hwf, hcap.trans h.capacity, hreg⟩

theorem onRead (h : Buffers b r) {k : Nat} (hk : k ≤ r.length) :
    Buffers (b.onRead k) (r.drop k) := by
  obtain ⟨hwf, hreg⟩ := h.wellFormed.onRead (k := k) (by rw [h.region]; exact hk)
  refine ⟨hwf, ?_, by rw [hreg, h.region]⟩
  unfold RecvBuffer.onRead
  dsimp only
  split <;> exact h.capacity

theorem compact (h : Buffers b r) : Buffers b.compact r := by
  obtain ⟨hwf, hreg, hcap⟩ := h.wellFormed.compact
  exact ⟨hwf, hcap.trans h.capacity, hreg.trans h.region⟩

end Buffers

/-! ## One chunk -/

/-- An open session that has delivered `ps` and holds `r`. -/
structure Holds (s : PacketSession) (ps : List Packet) (r : Bytes) : Prop where
  packets : s.packets = ps
  closed : s.closed = none
  buffer : Buffers s.recvBuffer r

/-- A session that has met an invalid size after delivering `ps`. -/
structure Rejected (s : PacketSession) (ps : List Packet) : Prop where
  packets : s.packets = ps
  closed : s.closed = some .invalidPacketSize

variable {s : PacketSession} {ps : List Packet} {r data : Bytes}

theorem Holds.append (h : Holds s ps r) (data : Bytes) (hd : r.length + data.length ≤ 65536) :
    (s.appendToRecvBuffer data).2 = true ∧
      Holds (s.appendToRecvBuffer data).1 ps (r ++ data) := by
  unfold appendToRecvBuffer
  split
  · next hnil =>
    rw [List.isEmpty_iff.1 hnil, List.append_nil]
    exact ⟨rfl, h⟩
  · obtain ⟨hok, hb⟩ := h.buffer.append hd
    dsimp only
    rw [if_pos hok]
    exact ⟨rfl, h.packets, h.closed, hb⟩

theorem Holds.compactIfNeeded (h : Holds s ps r) : Holds s.compactIfNeeded ps r := by
  unfold PacketSession.compactIfNeeded
  split
  · exact ⟨h.packets, h.closed, h.buffer.compact⟩
  · exact h

theorem Holds.keepRest (h : Holds s ps []) (data : Bytes) (hd : data.length ≤ 65536) :
    Holds (s.keepRest data) ps data := by
  obtain ⟨hok, hh⟩ := h.append data (by rw [List.length_nil]; omega)
  unfold PacketSession.keepRest
  rw [if_pos hok]
  exact hh.compactIfNeeded

theorem Holds.fill (h : Holds s ps r) (data : Bytes) {needed : Nat} (hn : r.length + needed ≤ 65536) :
    ∃ t, s.fill data needed = (t, data.drop (min needed data.length), true) ∧
      Holds t ps (r ++ data.take (min needed data.length)) := by
  obtain ⟨hok, hh⟩ := h.append (data.take (min needed data.length))
    (by rw [List.length_take]; omega)
  refine ⟨_, ?_, hh⟩
  unfold PacketSession.fill
  rw [if_pos hok]

theorem Holds.validate (h : Holds s ps r) {size : Nat} (hs : size < 65536) :
    (¬ size < kHeaderSize ∧ s.validatePacketSize size = (s, true)) ∨
    (size < kHeaderSize ∧ (s.validatePacketSize size).2 = false ∧
      Rejected (s.validatePacketSize size).1 ps) := by
  unfold validatePacketSize kMaxPacketSize
  by_cases hv : size < kHeaderSize
  · rw [if_neg (by omega)]
    exact .inr ⟨hv, rfl, h.packets, by simp [disconnect, h.closed]⟩
  · rw [if_pos (by omega)]
    exact .inl ⟨hv, rfl⟩

/-- What `CompleteBufferedPacket` has done when the stream seen is `x`. -/
def Completed (ps : List Packet) (x : Bytes) (res : PacketSession × Bytes × Bool) : Prop :=
  match nextPacket x with
  | .more => res.2 = ([], true) ∧ Holds res.1 ps x
  | .bad => res.2.2 = false ∧ Rejected res.1 ps
  | .item p n => res.2 = (x.drop n, true) ∧ Holds res.1 (ps ++ [p]) []

theorem Holds.completePacket (h : Holds s ps r) (data : Bytes) (h4 : ¬ r.length < kHeaderSize)
    (hr : ¬ (readLe16 r).toNat < kHeaderSize → r.length ≤ (readLe16 r).toNat) :
    Completed ps (r ++ data) (s.completePacket data) := by
  have hlt : (readLe16 r).toNat < 65536 := (readLe16 r).toNat_lt
  have hsize : readLe16 (r ++ data) = readLe16 r :=
    readLe16_append (by unfold kHeaderSize at h4; omega) data
  have h4' : ¬ (r ++ data).length < kHeaderSize := by rw [List.length_append]; omega
  unfold Completed PacketSession.completePacket
  rw [h.buffer.region]
  dsimp only
  rcases h.validate hlt with ⟨hv, hval⟩ | ⟨hv, hval, hrej⟩
  · rw [hval]
    have hle := hr hv
    have hneed : sub32 (readLe16 r).toNat s.recvBuffer.readableSize =
        (readLe16 r).toNat - r.length := by
      rw [h.buffer.readableSize]
      exact sub32_of_le hle (by omega)
    obtain ⟨t, hfill, ht⟩ := h.fill data
      (by omega : r.length + ((readLe16 r).toNat - r.length) ≤ 65536)
    simp only [hneed, hfill, Bool.not_true, Bool.false_eq_true, if_false]
    rw [ht.buffer.readableSize]
    by_cases hl : (r ++ data).length < (readLe16 (r ++ data)).toNat
    · rw [nextPacket_more h4' (by rwa [hsize]) hl]
      rw [hsize, List.length_append] at hl
      have hmin : min ((readLe16 r).toNat - r.length) data.length = data.length := by omega
      rw [hmin, List.take_length] at ht ⊢
      rw [if_pos (by rwa [List.length_append]), List.drop_length]
      exact ⟨rfl, ht⟩
    · rw [nextPacket_item h4' (by rwa [hsize]) hl, hsize]
      rw [hsize, List.length_append] at hl
      have hmin : min ((readLe16 r).toNat - r.length) data.length =
        (readLe16 r).toNat - r.length := by omega
      have htake : r ++ data.take ((readLe16 r).toNat - r.length) =
          (r ++ data).take (readLe16 r).toNat := by
        rw [List.take_append, List.take_of_length_le hle]
      have hdrop : data.drop ((readLe16 r).toNat - r.length) =
          (r ++ data).drop (readLe16 r).toNat := by
        rw [List.drop_append, List.drop_of_length_le hle, List.nil_append]
      have hlen : ((r ++ data).take (readLe16 r).toNat).length = (readLe16 r).toNat := by
        rw [List.length_take, List.length_append]
        omega
      rw [hmin, htake] at ht ⊢
      rw [hlen, if_neg (Nat.lt_irrefl _), hdrop, ht.buffer.region]
      unfold kHeaderSize at hv ⊢
      rw [List.drop_take, readLe16_take (by omega), List.drop_take, List.take_take, Nat.min_self]
      refine ⟨rfl, ?_, ht.closed, ?_⟩
      · show t.packets ++ _ = _
        rw [ht.packets]
      · have hb := ht.buffer.onRead (k := (readLe16 r).toNat) hlen.ge
        rwa [List.drop_of_length_le hlen.le] at hb
  · rw [hval, nextPacket_bad h4' (by rwa [hsize])]
    exact ⟨rfl, hrej⟩

/-- What is in the buffer is the beginning of one packet. -/
theorem length_le_of_more (h : nextPacket r = .more) (h4 : ¬ r.length < kHeaderSize)
    (hs : ¬ (readLe16 r).toNat < kHeaderSize) : r.length < (readLe16 r).toNat := by
  by_contra hl
  rw [nextPacket_item h4 hs hl] at h
  cases h

theorem Holds.completeBufferedPacket (h : Holds s ps r) (data : Bytes) (hr : nextPacket r = .more) :
    Completed ps (r ++ data) (s.completeBufferedPacket data) := by
  unfold PacketSession.completeBufferedPacket
  rw [h.buffer.readableSize]
  split
  · next h4 =>
    unfold kHeaderSize at h4
    have hneed : sub32 kHeaderSize r.length = 4 - r.length :=
      sub32_of_le (by unfold kHeaderSize; omega) (by decide)
    obtain ⟨t, hfill, ht⟩ := h.fill data (by omega : r.length + (4 - r.length) ≤ 65536)
    simp only [hneed, hfill, Bool.not_true, Bool.false_eq_true, if_false]
    rw [ht.buffer.readableSize, List.length_append, List.length_take]
    split
    · next hl =>
      -- the chunk ends inside the header
      unfold kHeaderSize at hl
      have hmin : min (4 - r.length) data.length = data.length := by omega
      have hshort : nextPacket (r ++ data) = .more :=
        nextPacket_short (by rw [List.length_append]; unfold kHeaderSize; omega)
      unfold Completed
      rw [hmin, List.take_length] at ht
      rw [hshort, hmin, List.drop_length]
      exact ⟨rfl, ht⟩
    · next hl =>
      have hlen : (r ++ data.take (min (4 - r.length) data.length)).length = 4 := by
        rw [List.length_append, List.length_take]
        unfold kHeaderSize at hl
        omega
      have := ht.completePacket (data.drop (min (4 - r.length) data.length))
        (by rw [hlen]; decide) (by rw [hlen]; unfold kHeaderSize; omega)
      rwa [List.append_assoc, List.take_append_drop] at this
  · next h4 => exact h.completePacket data h4 fun hs => (length_le_of_more hr h4 hs).le

/-- What the session is after the stream `p` was parsed from. -/
def Follows (s : PacketSession) (p : Parsed UInt8 Packet) : Prop :=
  match p.rest with
  | some r => Holds s p.items r ∧ nextPacket r = .more
  | none => Rejected s p.items

theorem Holds.follows (h : Holds s ps r) (hr : nextPacket r = .more) : Follows s ⟨ps, some r⟩ :=
  ⟨h, hr⟩

/-- The packet completed is longer than what the buffer held of it. -/
theorem length_lt_of_item {p : Packet} {n : Nat} (hr : nextPacket r = .more)
    (h : nextPacket (r ++ data) = .item p n) : r.length < n := by
  obtain ⟨-, rfl, hs, -, -⟩ := item_cases h
  by_cases h4 : r.length < kHeaderSize
  · omega
  · have hsize : readLe16 (r ++ data) = readLe16 r :=
      readLe16_append (by unfold kHeaderSize at h4; omega) data
    rw [hsize] at hs ⊢
    exact length_le_of_more hr h4 hs

/-- The loop decodes what follows the first packet of the bytes held and the chunk. -/
def GoesOn (fuel : Nat) (ps : List Packet) (r data : Bytes) : Prop :=
  ∀ {t p n}, nextPacket (r ++ data) = .item p n → Holds t (ps ++ [p]) [] →
    ∃ u, onRecvLoop fuel t ((r ++ data).drop n) = some u ∧
      Follows u (packetDecoder.resume ⟨ps, some r⟩ data)

/-- A round of the loop with bytes held. -/
theorem onRecvLoop_held {fuel : Nat} {data : Bytes} (hr : nextPacket r = .more)
    (h : Holds s ps r) (hnext : GoesOn fuel ps r data) (hne : data.isEmpty = false)
    (hbuf : s.recvBuffer.isEmpty = false) :
    ∃ t, onRecvLoop (fuel + 1) s data = some t ∧
      Follows t (packetDecoder.resume ⟨ps, some r⟩ data) := by
  unfold onRecvLoop
  rw [if_neg (by simp [hne]), if_pos (by simp [hbuf])]
  have hc := h.completeBufferedPacket data hr
  unfold Completed at hc
  cases hx : nextPacket (r ++ data) with
  | more =>
    rw [hx] at hc
    obtain ⟨hres, ht⟩ := hc
    have hfull : (s.completeBufferedPacket data).1.recvBuffer.isEmpty = false := by
      rw [Bool.eq_false_iff, ne_eq, ht.buffer.isEmpty_iff, List.append_eq_nil_iff]
      rintro ⟨-, rfl⟩
      cases hne
    rw [Decoder.resume_more (d := packetDecoder) hx]
    refine ⟨_, ?_, ht.compactIfNeeded.follows hx⟩
    simp [hres, hfull]
  | bad =>
    rw [hx] at hc
    obtain ⟨hres, ht⟩ := hc
    rw [Decoder.resume_bad (d := packetDecoder) hx]
    refine ⟨_, ?_, ht⟩
    simp [hres]
  | item p n =>
    rw [hx] at hc
    obtain ⟨hres, ht⟩ := hc
    have hempty : (s.completeBufferedPacket data).1.recvBuffer.isEmpty = true :=
      ht.buffer.isEmpty_iff.2 rfl
    obtain ⟨u, hu, hf⟩ := hnext hx ht
    refine ⟨u, ?_, hf⟩
    simpa [hres, hempty] using hu

/-- A round with nothing held: the packet is parsed in the chunk. -/
theorem onRecvLoop_direct {fuel : Nat} {data : Bytes} (h : Holds s ps [])
    (hnext : GoesOn fuel ps [] data) (hne : data.isEmpty = false) :
    ∃ t, onRecvLoop (fuel + 1) s data = some t ∧
      Follows t (packetDecoder.resume ⟨ps, some []⟩ data) := by
  have hbuf : s.recvBuffer.isEmpty = true := h.buffer.isEmpty_iff.2 rfl
  have hlt : (readLe16 data).toNat < 65536 := (readLe16 data).toNat_lt
  unfold onRecvLoop
  rw [if_neg (by simp [hne]), if_neg (by simp [hbuf])]
  split
  · next h4 =>
    have hx := nextPacket_short h4
    rw [Decoder.resume_more (d := packetDecoder) (r := []) hx]
    exact ⟨_, rfl, (h.keepRest data (by unfold kHeaderSize at h4; omega)).follows hx⟩
  · next h4 =>
    dsimp only
    rcases h.validate hlt with ⟨hv, hval⟩ | ⟨hv, hval, hrej⟩
    · rw [hval]
      by_cases hl : data.length < (readLe16 data).toNat
      · have hx := nextPacket_more h4 hv hl
        rw [Decoder.resume_more (d := packetDecoder) (r := []) hx, if_neg (by simp), if_pos hl]
        exact ⟨_, rfl, (h.keepRest data (by omega)).follows hx⟩
      · rw [if_neg (by simp), if_neg hl]
        refine hnext (nextPacket_item h4 hv hl) ⟨?_, h.closed, h.buffer⟩
        show s.packets ++ _ = _
        rw [h.packets, List.nil_append]
    · have hx := nextPacket_bad h4 hv
      rw [hval, Decoder.resume_bad (d := packetDecoder) (r := []) hx]
      exact ⟨_, rfl, hrej⟩

/-- The loop of `OnRecv` decodes the bytes held and the chunk; each round that
goes on uses at least one byte of the chunk. -/
theorem onRecvLoop_follows (fuel : Nat) (data : Bytes) (hr : nextPacket r = .more) (h : Holds s ps r)
    (hfuel : data.length < fuel) :
    ∃ t, onRecvLoop fuel s data = some t ∧
      Follows t (packetDecoder.resume ⟨ps, some r⟩ data) := by
  induction fuel generalizing s ps r data with
  | zero => omega
  | succ fuel ih =>
    have hnext : GoesOn fuel ps r data := by
      intro t p n hx ht
      rw [Decoder.resume_item (d := packetDecoder) hx]
      refine ih _ (nextPacket_short (by decide)) ht ?_
      have hlt := length_lt_of_item hr hx
      have hle := (packetDecoder.size hx).2
      rw [List.length_append] at hle
      rw [List.length_drop, List.length_append]
      omega
    cases hne : data.isEmpty with
    | true =>
      unfold onRecvLoop
      rw [if_pos hne, List.isEmpty_iff.1 hne,
        Decoder.resume_more (d := packetDecoder) (by rwa [List.append_nil]), List.append_nil]
      exact ⟨_, rfl, h.compactIfNeeded.follows hr⟩
    | false =>
      cases hbuf : s.recvBuffer.isEmpty with
      | false => exact onRecvLoop_held hr h hnext hne hbuf
      | true =>
        obtain rfl : r = [] := h.buffer.isEmpty_iff.1 hbuf
        exact onRecvLoop_direct h hnext hne

/-! ## Streams -/

/-- A session that is fed chunk after chunk decodes the stream. -/
theorem feed_receives : packetDecoder.Receives feed Follows := by
  rintro s ⟨ps, rest⟩ h chunk
  cases rest with
  | none =>
    have hclosed : s.closed.isSome = true := by rw [Rejected.closed h]; rfl
    exact ⟨s, by rw [feed, if_pos hclosed], h⟩
  | some r =>
    obtain ⟨hh, hr⟩ := h
    obtain ⟨t, ht, hf⟩ := onRecvLoop_follows (chunk.length + 1) chunk hr hh (by omega)
    refine ⟨t, ?_, hf⟩
    rw [feed, hh.closed]
    exact ht

theorem follows_init : Follows {} (packetDecoder.parse []) := by
  have hnil : nextPacket [] = .more := nextPacket_short (by decide)
  rw [Decoder.parse_more (d := packetDecoder) (x := []) hnil]
  exact ⟨⟨rfl, rfl, RecvBuffer.make_wellFormed (by decide), rfl, rfl⟩, hnil⟩

theorem feed_stream (chunks : List Bytes) :
    ∃ s, chunks.foldlM feed {} = some s ∧ Follows s (packetDecoder.parse chunks.flatten) :=
  feed_receives.fold chunks follows_init

/-! ## Packets as they are built -/

theorem readLe16_writeLe16 (v : UInt16) (y : Bytes) : readLe16 (writeLe16 v ++ y) = v := by
  have := v.toNat_lt
  apply UInt16.toNat.inj
  simp [readLe16, writeLe16]
  omega

/-- `bytes` is what `Build` made of `p`. -/
def Built (p : Packet) (bytes : Bytes) : Prop :=
  p.payload.length < 2 ^ 31 ∧ ∃ allocated serialized, build allocated serialized p = some bytes

theorem build_eq {p : Packet} {bytes : Bytes} (h : Built p bytes) :
    4 + p.payload.length < 65536 ∧
      bytes = writeLe16 (UInt16.ofNat (4 + p.payload.length)) ++ (writeLe16 p.id ++ p.payload) := by
  obtain ⟨hlen, allocated, serialized, hb⟩ := h
  have hpayload : u32 p.payload.length = p.payload.length := u32_of_lt (by omega)
  have htotal : u32 (4 + p.payload.length) = 4 + p.payload.length := u32_of_lt (by omega)
  simp only [build, kHeaderSize, kMaxPacketSize, hpayload, htotal] at hb
  split at hb
  · cases hb
  · next hmax =>
    split at hb
    · cases hb
    · split at hb
      · cases hb
      · cases hb
        exact ⟨by omega, List.append_assoc ..⟩

/-- A packet that was built is the next packet of the stream. -/
theorem nextPacket_built {p : Packet} {bytes : Bytes} (h : Built p bytes) (y : Bytes) :
    nextPacket (bytes ++ y) = .item p bytes.length := by
  obtain ⟨hlt, rfl⟩ := build_eq h
  have hsize : readLe16 (writeLe16 (UInt16.ofNat (4 + p.payload.length)) ++
      (writeLe16 p.id ++ p.payload) ++ y) = UInt16.ofNat (4 + p.payload.length) := by
    rw [List.append_assoc, readLe16_writeLe16]
  have hnat : (UInt16.ofNat (4 + p.payload.length)).toNat = 4 + p.payload.length :=
    UInt16.toNat_ofNat_of_lt' hlt
  have hlen : (writeLe16 (UInt16.ofNat (4 + p.payload.length)) ++
      (writeLe16 p.id ++ p.payload)).length = 4 + p.payload.length := by
    simp only [writeLe16, List.length_append, List.length_cons, List.length_nil]
    omega
  rw [nextPacket_item (by rw [List.length_append, hlen]; unfold kHeaderSize; omega)
    (by rw [hsize, hnat]; unfold kHeaderSize; omega)
    (by rw [hsize, hnat, List.length_append, hlen]; omega), hsize, hnat, hlen]
  have hid : readLe16 ((writeLe16 (UInt16.ofNat (4 + p.payload.length)) ++
      (writeLe16 p.id ++ p.payload) ++ y).drop 2) = p.id := by
    show readLe16 (writeLe16 p.id ++ p.payload ++ y) = p.id
    rw [List.append_assoc, readLe16_writeLe16]
  have hpayload : ((writeLe16 (UInt16.ofNat (4 + p.payload.length)) ++
      (writeLe16 p.id ++ p.payload) ++ y).drop kHeaderSize).take
        (4 + p.payload.length - kHeaderSize) = p.payload := by
    show (p.payload ++ y).take (4 + p.payload.length - 4) = p.payload
    rw [Nat.add_sub_cancel_left]
    exact List.take_left
  rw [hid, hpayload]

/-- Whole packets in front of a stream. -/
theorem parse_built {sent : List (Packet × Bytes)} (h : ∀ e ∈ sent, Built e.1 e.2) (y : Bytes) :
    packetDecoder.parse ((sent.map Prod.snd).flatten ++ y) =
      ⟨sent.map Prod.fst ++ (packetDecoder.parse y).items, (packetDecoder.parse y).rest⟩ :=
  Decoder.parse_words (d := packetDecoder) (fun e he => nextPacket_built (h e he)) y

theorem Follows.items {p : Parsed UInt8 Packet} (h : Follows s p) : s.packets = p.items := by
  unfold Follows at h
  split at h
  · exact h.1.packets
  · exact h.packets

theorem Follows.closed {p : Parsed UInt8 Packet} (h : Follows s p) :
    s.closed = if p.rest.isSome then none else some .invalidPacketSize := by
  unfold Follows at h
  split at h
  · next hr => rw [hr]; exact h.1.closed
  · next hr => rw [hr]; exact PacketSession.Rejected.closed h

/-- **Packet framing.** Whatever chunks a session is fed, the stream decides
what it delivers and whether it closes; packets that were built come out as they
went in, and a size below the header's closes it behind the packets before it.
`recv_buffer_` never overflows. -/
theorem packet_framing (chunks : List Bytes) :
    ∃ s, chunks.foldlM feed {} = some s ∧ s.closed ≠ some .recvBufferOverflow ∧
      s.packets = (packetDecoder.parse chunks.flatten).items ∧
      (s.closed = none ↔ (packetDecoder.parse chunks.flatten).rest.isSome = true) ∧
      (∀ chunks' : List Bytes, chunks'.flatten = chunks.flatten →
        ∃ s', chunks'.foldlM feed {} = some s' ∧ s'.packets = s.packets ∧
          s'.closed = s.closed) ∧
      (∀ sent : List (Packet × Bytes), (∀ e ∈ sent, Built e.1 e.2) →
        (chunks.flatten = (sent.map Prod.snd).flatten →
          s.packets = sent.map Prod.fst ∧ s.closed = none) ∧
        (∀ header more : Bytes, header.length = 4 → (readLe16 header).toNat < 4 →
          chunks.flatten = (sent.map Prod.snd).flatten ++ (header ++ more) →
          s.packets = sent.map Prod.fst ∧ s.closed = some .invalidPacketSize)) := by
  obtain ⟨s, hs, h⟩ := feed_stream chunks
  have hitems := h.items
  have hclosed := h.closed
  refine ⟨s, hs, ?_, hitems, ?_, fun chunks' he => ?_, fun sent hsent => ⟨fun he => ?_, ?_⟩⟩
  · rw [hclosed]
    split <;> simp
  · rw [hclosed]
    split <;> simp_all
  · obtain ⟨s', hs', h'⟩ := feed_stream chunks'
    rw [he] at h'
    exact ⟨s', hs', h'.items.trans hitems.symm, h'.closed.trans hclosed.symm⟩
  · have hp := parse_built hsent []
    have hnil : nextPacket [] = .more := nextPacket_short (by decide)
    rw [List.append_nil, ← he, Decoder.parse_more (d := packetDecoder) (x := []) hnil,
      List.append_nil] at hp
    rw [hitems, hclosed, hp]
    exact ⟨rfl, rfl⟩
  · intro header more h4 hbad he
    have hp := parse_built hsent (header ++ more)
    have hnext : nextPacket (header ++ more) = .bad := by
      refine nextPacket_bad ?_ ?_
      · rw [List.length_append]
        unfold kHeaderSize
        omega
      · rw [readLe16_append (by omega)]
        exact hbad
    rw [← he, Decoder.parse_bad (d := packetDecoder) hnext, List.append_nil] at hp
    rw [hitems, hclosed, hp]
    exact ⟨rfl, rfl⟩

/-- A packet of one byte and an empty one, cut inside the headers. -/
theorem packet_framing_cut :
    ∃ s, [[5, 0, 7], [0, 9, 4], [], [0, 8, 0]].foldlM feed {} = some s ∧
      s.packets = [⟨7, [9]⟩, ⟨8, []⟩] ∧ s.closed = none := by
  obtain ⟨s, hs, -, -, -, -, h⟩ := packet_framing [[5, 0, 7], [0, 9, 4], [], [0, 8, 0]]
  refine ⟨s, hs, (h [(⟨7, [9]⟩, [5, 0, 7, 0, 9]), (⟨8, []⟩, [4, 0, 8, 0])] ?_).1 rfl⟩
  simp only [List.forall_mem_cons, List.not_mem_nil, false_implies, implies_true, and_true]
  exact ⟨⟨by decide, true, true, by decide⟩, by decide, true, true, by decide⟩

end PacketSession

end IouringRuntime
