import FreeRDP.Gateway.Write

/-!
# Masked frames

A payload is masked 32 bits at a time and then byte by byte, which is the same as byte by byte
(`maskPayload_eq`). The ten bytes of the header of a data packet use the key two and a half times, hence
the key that is rotated by two bytes goes on where they end (`maskBytes_rotate`).

`maskedFrame` reads a frame as a server does: its first byte, and the payload, each byte of which is
combined with the byte of the key at the same place modulo four.

`writers_agree`: both writers send the same frame, from which the header and the data are read back.
-/

namespace FreeRDP.Gateway

open Traced Wire

variable {key : UInt32} {opcode : UInt8} {payload data : List UInt8} {pos n : ℕ}

/-! ### Words -/

theorem xor_shiftRight (x y n : UInt32) : (x ^^^ y) >>> n = x >>> n ^^^ y >>> n :=
  UInt32.toBitVec_inj.mp (BitVec.ushiftRight_xor_distrib _ _ _)

theorem write32_xor (x y : UInt32) :
    write32 (x ^^^ y) = List.zipWith (· ^^^ ·) (write32 x) (write32 y) := by
  simp only [write32, xor_shiftRight, UInt32.toUInt8_xor, List.zipWith_cons_cons, List.zipWith_nil_left]

theorem write32_eq (x : UInt32) : write32 x = le32 x.toNat := by
  simp only [write32, le32, le16, List.cons_append, List.nil_append, List.cons.injEq, ← UInt8.toNat_inj,
    UInt32.toNat_toUInt8, UInt32.toNat_shiftRight, UInt8.toNat_ofNat', Nat.shiftRight_eq_div_pow, and_true]
  refine ⟨trivial, rfl, rfl, ?_⟩
  exact congrArg (· % 2 ^ 8) (Nat.div_div_eq_div_mul x.toNat (2 ^ 16) (2 ^ 8)).symm

theorem toNat_read32 (a b c d : UInt8) :
    (read32 a b c d).toNat = a.toNat + b.toNat * 2 ^ 8 + c.toNat * 2 ^ 16 + d.toNat * 2 ^ 24 := by
  have ha := a.toNat_lt
  have hb := b.toNat_lt
  have hc := c.toNat_lt
  have hd := d.toNat_lt
  simp [read32, Nat.shiftLeft_eq]
  omega

theorem write32_read32 (a b c d : UInt8) : write32 (read32 a b c d) = [a, b, c, d] := by
  have ha := a.toNat_lt
  have hb := b.toNat_lt
  have hc := c.toNat_lt
  have hd := d.toNat_lt
  rw [write32_eq, toNat_read32]
  simp only [le32, le16, List.cons_append, List.nil_append, List.cons.injEq, ← UInt8.toNat_inj,
    UInt8.toNat_ofNat', and_true]
  omega

theorem le16_mod (n : ℕ) : le16 (n % 2 ^ 16) = le16 n := by
  simp only [le16, List.cons.injEq, ← UInt8.toNat_inj, UInt8.toNat_ofNat', and_true]
  omega

theorem write32_rotate (key : UInt32) :
    write32 ((key &&& 0xFFFF) <<< 16 ||| key >>> 16) = [keyByte key 2, keyByte key 3, keyByte key 0,
      keyByte key 1] := by
  have hlt := key.toNat_lt
  have hand : key.toNat &&& 0xFFFF = key.toNat % 2 ^ 16 := Nat.and_two_pow_sub_one_eq_mod key.toNat 16
  have hhigh : key.toNat / 2 ^ 16 < 2 ^ 16 := by omega
  have hvalue : ((key &&& 0xFFFF) <<< 16 ||| key >>> 16).toNat =
      key.toNat / 2 ^ 16 + 2 ^ 16 * (key.toNat % 2 ^ 16) := by
    rw [UInt32.toNat_or, UInt32.toNat_shiftLeft, UInt32.toNat_and, UInt32.toNat_shiftRight]
    show (key.toNat &&& 0xFFFF) <<< 16 % 2 ^ 32 ||| key.toNat >>> 16 = _
    rw [hand, Nat.shiftLeft_eq, Nat.mod_eq_of_lt (by omega), ← Nat.shiftLeft_eq, Nat.shiftRight_eq_div_pow,
      ← Nat.shiftLeft_add_eq_or_of_lt hhigh, Nat.shiftLeft_eq]
    omega
  have hlow : le16 (key.toNat / 2 ^ 16 + 2 ^ 16 * (key.toNat % 2 ^ 16)) = le16 (key.toNat / 2 ^ 16) := by
    rw [← le16_mod, Nat.add_mul_mod_self_left, le16_mod]
  have hdiv : (key.toNat / 2 ^ 16 + 2 ^ 16 * (key.toNat % 2 ^ 16)) / 2 ^ 16 = key.toNat % 2 ^ 16 := by omega
  have hbytes : [keyByte key 2, keyByte key 3, keyByte key 0, keyByte key 1] =
      le16 (key.toNat / 2 ^ 16) ++ le16 key.toNat := by
    unfold keyByte
    rw [write32_eq]
    rfl
  rw [write32_eq, hvalue, le32, hlow, hdiv, le16_mod, hbytes]

/-! ### Masking -/

@[simp]
theorem length_maskBytes : (maskBytes key pos payload).length = payload.length := by
  induction payload generalizing pos with
  | nil => rfl
  | cons byte payload ih => exact congrArg (· + 1) ih

theorem maskBytes_append (payload data : List UInt8) :
    maskBytes key pos (payload ++ data) =
      maskBytes key pos payload ++ maskBytes key (pos + payload.length) data := by
  induction payload generalizing pos with
  | nil => rfl
  | cons byte payload ih =>
    rw [List.cons_append, maskBytes, ih, List.length_cons, Nat.add_right_comm, Nat.add_assoc, maskBytes]
    rfl

/-- Keys whose bytes agree at all places. -/
theorem maskBytes_congr {key' : UInt32} {pos' : ℕ}
    (h : ∀ i, keyByte key ((pos + i) % 4) = keyByte key' ((pos' + i) % 4)) :
    maskBytes key pos payload = maskBytes key' pos' payload := by
  induction payload generalizing pos pos' with
  | nil => rfl
  | cons byte payload ih =>
    rw [maskBytes, maskBytes, show keyByte key (pos % 4) = keyByte key' (pos' % 4) from h 0]
    refine congrArg _ (ih fun i => ?_)
    rw [Nat.add_assoc, Nat.add_assoc, h]

theorem maskBytes_add_four : maskBytes key (pos + 4) payload = maskBytes key pos payload :=
  maskBytes_congr fun i => by rw [Nat.add_right_comm, Nat.add_mod_right]

theorem maskPayload_eq (payload : List UInt8) (hpos : pos % 4 = 0) :
    maskPayload key pos payload = maskBytes key pos payload := by
  fun_induction maskPayload key pos payload with
  | case1 pos a b c d payload ih =>
    have hword : write32 (read32 a b c d ^^^ key) = maskBytes key pos [a, b, c, d] := by
      rw [write32_xor, write32_read32]
      have h1 : (pos + 1) % 4 = 1 := by omega
      have h2 : (pos + 1 + 1) % 4 = 2 := by omega
      have h3 : (pos + 1 + 1 + 1) % 4 = 3 := by omega
      rw [maskBytes, maskBytes, maskBytes, maskBytes, maskBytes, hpos, h1, h2, h3]
      rfl
    rw [ih (by omega), hword]
    exact (maskBytes_append [a, b, c, d] payload).symm
  | case2 => rfl

/-- The key that is rotated goes on at the third byte. -/
theorem maskBytes_rotate :
    maskBytes ((key &&& 0xFFFF) <<< 16 ||| key >>> 16) pos payload = maskBytes key (pos + 2) payload := by
  refine maskBytes_congr fun i => ?_
  have hlt : (pos + i) % 4 < 4 := Nat.mod_lt _ (by decide)
  rw [keyByte, write32_rotate, Nat.add_right_comm, Nat.add_mod _ 2]
  generalize (pos + i) % 4 = j at hlt ⊢
  obtain rfl | rfl | rfl | rfl : j = 0 ∨ j = 1 ∨ j = 2 ∨ j = 3 := by omega
  all_goals rfl

theorem maskBytes_maskBytes (payload : List UInt8) :
    maskBytes key pos (maskBytes key pos payload) = payload := by
  induction payload generalizing pos with
  | nil => rfl
  | cons byte payload ih => rw [maskBytes, maskBytes, ih, UInt8.xor_assoc, UInt8.xor_self, UInt8.xor_zero]

/-! ### The header of a data packet -/

theorem xor_shiftRight16 (x y n : UInt16) : (x ^^^ y) >>> n = x >>> n ^^^ y >>> n :=
  UInt16.toBitVec_inj.mp (BitVec.ushiftRight_xor_distrib _ _ _)

theorem write16_eq (x : UInt16) : write16 x = le16 x.toNat := by
  simp only [write16, le16, List.cons.injEq, ← UInt8.toNat_inj, UInt16.toNat_toUInt8,
    UInt16.toNat_shiftRight, UInt8.toNat_ofNat', Nat.shiftRight_eq_div_pow, and_true]
  exact ⟨trivial, rfl⟩

theorem write16_ofNat (n : ℕ) : write16 (UInt16.ofNat n) = le16 n := by
  rw [write16_eq, UInt16.toNat_ofNat', le16_mod]

theorem write32_ofNat (n : ℕ) : write32 (UInt32.ofNat n) = le32 n := by
  rw [write32_eq, UInt32.toNat_ofNat', le32, ← le16_mod, ← le16_mod (n % 2 ^ 32 / 2 ^ 16),
    show n % 2 ^ 32 % 2 ^ 16 = n % 2 ^ 16 by
      omega, show n % 2 ^ 32 / 2 ^ 16 % 2 ^ 16 = n / 2 ^ 16 % 2 ^ 16 by omega, le16_mod, le16_mod, le32]

theorem write16_keyHalf (low high : UInt8) : write16 (keyHalf low high) = [low, high] := by
  have hlow := low.toNat_lt
  have hhigh := high.toNat_lt
  have hvalue : (keyHalf low high).toNat = high.toNat * 2 ^ 8 + low.toNat := by
    rw [← shiftLeft_or _ hlow, Nat.lor_comm, keyHalf, UInt16.toNat_or, UInt16.toNat_shiftLeft]
    show low.toNat ||| high.toNat <<< 8 % 2 ^ 16 = _
    rw [Nat.mod_eq_of_lt (by rw [Nat.shiftLeft_eq]; omega)]
  rw [write16_eq, hvalue]
  simp only [le16, List.cons.injEq, ← UInt8.toNat_inj, UInt8.toNat_ofNat', and_true]
  omega

theorem write16_xor_keyHalf (n : ℕ) (low high : UInt8) :
    write16 (UInt16.ofNat n ^^^ keyHalf low high) = List.zipWith (· ^^^ ·) (le16 n) [low, high] := by
  rw [← write16_ofNat, ← write16_keyHalf low high]
  simp only [write16, xor_shiftRight16, UInt16.toUInt8_xor, List.zipWith_cons_cons, List.zipWith_nil_left]

theorem maskedDataPacketHeader_eq (key : UInt32) (n : ℕ) :
    maskedDataPacketHeader key n = maskBytes key 0 (dataPacketHeader n) := by
  unfold maskedDataPacketHeader
  dsimp only
  rw [write16_xor_keyHalf, write16_xor_keyHalf, write32_xor, write32_ofNat,
    show (0 : UInt16) = UInt16.ofNat 0 from rfl, write16_xor_keyHalf]
  rfl

/-! ### Frames that are read -/

/-- Each byte is combined with the byte of the key at the same place modulo four. -/
def unmask (key payload : List UInt8) : List UInt8 := payload.mapIdx fun i byte => byte ^^^ key.getD
    (i % 4) 0

/-- Eight bytes, the highest one first. -/
def u64be : Reader ℕ := do
  let a ← u32be
  let b ← u32be
  return 2 ^ 32 * a + b

/-- A length that begins with seven bits. -/
def payloadLength (len : ℕ) : Reader ℕ :=
  if len < 126 then return len else if len = 126 then u16be else u64be

/-- A frame with a masking key: its first byte, and its payload. -/
def maskedFrame : Reader (ℕ × List UInt8) := do
  let first ← u8
  let second ← u8
  check (2 ^ 7 ≤ second)
  let len ← payloadLength (second - 2 ^ 7)
  let key ← bytes 4
  let masked ← bytes len
  return (first, unmask key masked)

theorem maskBytes_eq_mapIdx (key : UInt32) (pos : ℕ) (payload : List UInt8) :
    maskBytes key pos payload =
      payload.mapIdx fun i byte => byte ^^^ (write32 key).getD ((pos + i) % 4) 0 := by
  induction payload generalizing pos with
  | nil => rfl
  | cons byte payload ih =>
    rw [maskBytes, ih, List.mapIdx_cons]
    refine congrArg _ (congrArg (List.mapIdx · payload) ?_)
    funext i byte
    rw [Nat.add_assoc, Nat.add_comm 1]

theorem unmask_maskBytes (key : UInt32) (payload : List UInt8) :
    unmask (write32 key) (maskBytes key 0 payload) = payload := by
  have h := maskBytes_eq_mapIdx key 0 (maskBytes key 0 payload)
  rw [maskBytes_maskBytes] at h
  simp only [Nat.zero_add] at h
  exact h.symm

/-- The seven bits of a length, or of the form of a length, below the mask bit. -/
theorem reads_lengthByte (hn : n < 2 ^ 7) : Reads u8 [UInt8.ofNat n ||| websocketMaskBit] (2 ^ 7 + n) := by
  have hvalue : (UInt8.ofNat n ||| websocketMaskBit).toNat = 2 ^ 7 + n := by
    rw [UInt8.toNat_or, UInt8.toNat_ofNat', Nat.mod_eq_of_lt (by omega), Nat.lor_comm]
    exact (Nat.two_pow_add_eq_or_of_lt hn 1).symm
  intro rest
  exact congrArg (fun k => some (k, rest)) hvalue

theorem reads_u64be (hn : n < 2 ^ 32) : Reads u64be (be32 0 ++ be32 n) n :=
  (Reads.u32be (by decide)).bind ((Reads.u32be hn).map (by omega))

/-- What is in front of the payload, and the payload, are read back. -/
theorem reads_maskedFrame (hlength : payload.length ≤ intMax) :
    Reads maskedFrame (websocketHeader opcode payload.length key ++ maskBytes key 0 payload)
      ((websocketFinBit ||| opcode).toNat, payload) := by
  unfold intMax at hlength
  have hkey : (write32 key).length = 4 := rfl
  have hrest (len : ℕ) (hlen : len = payload.length) : Reads
      (bytes 4 >>= fun key => bytes len >>= fun masked =>
        pure ((websocketFinBit ||| opcode).toNat, unmask key masked))
      (write32 key ++ maskBytes key 0 payload) ((websocketFinBit ||| opcode).toNat, payload) := by
    refine (Reads.bytes hkey).bind ((Reads.bytes ?_).map ?_)
    · rw [length_maskBytes, hlen]
    · rw [unmask_maskBytes]
  have hfirst : Reads u8 [websocketFinBit ||| opcode] (websocketFinBit ||| opcode).toNat := fun _ => rfl
  unfold websocketHeader
  rw [List.cons_append, List.append_assoc]
  refine hfirst.bind ?_
  split_ifs with hbyte hshort
  · refine (reads_lengthByte (by omega)).bind
      (Reads.skip (Reads.check (by omega)) (Reads.skip ?_ (hrest _ rfl)))
    rw [Nat.add_sub_cancel_left, payloadLength, if_pos hbyte]
    exact Reads.pure _
  · refine (reads_lengthByte (n := 126) (by decide)).bind (Reads.skip (Reads.check (by decide)) ?_)
    exact (Reads.u16be hshort).bind (hrest _ rfl)
  · refine (reads_lengthByte (n := 127) (by decide)).bind (Reads.skip (Reads.check (by decide)) ?_)
    exact (reads_u64be (by omega)).bind (hrest _ rfl)

/-! ### Both writers -/

theorem rdgWriteWebsocket_value {sPacket : SealedStream} (hlength : sPacket.bytes.length ≤ intMax) :
    (rdgWriteWebsocket key opcode sPacket).value =
      some (websocketHeader opcode sPacket.bytes.length key ++ maskBytes key 0 sPacket.bytes) := by
  rw [rdgWriteWebsocket, if_neg (Nat.not_lt.mpr hlength), maskPayload_eq _ rfl]
  rfl

theorem rdgWriteWebsocketDataPacket_eq (hlength : data.length ≤ 0xFFFF) :
    rdgWriteWebsocketDataPacket key data =
      some (websocketHeader websocketBinaryOpcode (data.length + 10) key ++
        maskBytes key 0 (dataPacketHeader data.length ++ data)) := by
  have hheader : (dataPacketHeader data.length).length = 10 := rfl
  have hmask : maskBytes key 10 data = maskBytes key 2 data :=
    maskBytes_add_four.trans maskBytes_add_four
  unfold rdgWriteWebsocketDataPacket
  dsimp only
  rw [if_neg (by omega), if_neg (by omega), maskPayload_eq _ rfl, maskBytes_rotate,
    maskedDataPacketHeader_eq,
    maskBytes_append, hheader, Nat.zero_add, Nat.zero_add, hmask, List.append_assoc]

/-- Both writers send the same frame for a data packet, from which its header and the data are read back. -/
theorem writers_agree (maskingKey : UInt32) (capacity : ℕ) (hlength : data.length ≤ 65535) :
    ∃ frame, rdgWriteWebsocketDataPacket maskingKey data = some frame ∧
      (rdgWriteWebsocket maskingKey websocketBinaryOpcode
        ⟨dataPacketHeader data.length ++ data, capacity⟩).value = some frame ∧
      maskedFrame frame = some ((0x82, dataPacketHeader data.length ++ data), []) := by
  have hsize : (dataPacketHeader data.length ++ data).length = data.length + 10 := by
    rw [List.length_append, Nat.add_comm]
    rfl
  have hle : (dataPacketHeader data.length ++ data).length ≤ intMax := by
    unfold intMax
    omega
  refine ⟨_, rdgWriteWebsocketDataPacket_eq hlength, ?_, ?_⟩
  · rw [rdgWriteWebsocket_value hle, hsize]
  · rw [← hsize, ← List.append_nil (_ ++ _)]
    exact reads_maskedFrame hle []

/-- Five bytes of data: a word and a byte. -/
theorem writers_agree_five : ∃ frame, rdgWriteWebsocketDataPacket 0x01020304 [1, 2, 3, 4, 5] = some frame ∧
    (rdgWriteWebsocket 0x01020304 websocketBinaryOpcode
      ⟨dataPacketHeader [1, 2, 3, 4, 5].length ++ [1, 2, 3, 4, 5], 15⟩).value = some frame ∧
    maskedFrame frame = some ((0x82, dataPacketHeader [1, 2, 3, 4, 5].length ++ [1, 2, 3, 4, 5]), []) :=
  writers_agree 0x01020304 15 (by decide)

end FreeRDP.Gateway
