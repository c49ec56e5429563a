import FreeRDP.FastPath.Equiv.Reassembly

/-!
# Fragmentation and reassembly

The PDUs of `fastpath_send_update_pdu`, received in order, give back the update that was sent.  The
sender and the receiver are followed together: after each round of the sender's loop the receiver
holds what has been sent so far (`Underway`), until the last fragment completes the update (`Done`).
-/

namespace FreeRDP.FastPath

open Iterate
open Zgfx (u16le)

variable {S R : Type} {codec : Codec S R} {env : Environment} {fp fp' : Receiver R}
  {Rel : S → R → Prop}

/-! ### Headers -/

theorem perReadLength_write {length : ℕ} (hlen : length < 2 ^ 15) (rest : List UInt8) :
    perReadLength (UInt8.ofNat (0x80 ||| length >>> 8) :: UInt8.ofNat (length &&& 0xFF) :: rest) =
      some (length, rest) := by
  have hhigh : ∀ a < 128, (UInt8.ofNat (0x80 ||| a)).toNat &&& 0x80 ≠ 0 ∧
      (UInt8.ofNat (0x80 ||| a)).toNat &&& 0x7F = a := by decide
  have hlow : (UInt8.ofNat (length &&& 0xFF)).toNat = length % 2 ^ 8 := by
    rw [UInt8.toNat_ofNat', show 0xFF = 2 ^ 8 - 1 from rfl, Nat.and_two_pow_sub_one_eq_mod,
      Nat.mod_mod]
  have hshift : length >>> 8 = length / 2 ^ 8 := Nat.shiftRight_eq_div_pow length 8
  obtain ⟨hbit, hbits⟩ := hhigh (length >>> 8) (by omega)
  simp only [perReadLength]
  rw [if_pos hbit, hbits, hlow, hshift, Nat.shiftLeft_eq, Nat.mul_comm, Nat.div_add_mod,
    Nat.mod_eq_of_lt (by omega)]

theorem fastpathReadHeaderRdp_write {length : ℕ} (h3 : 3 ≤ length) (hlen : length < 2 ^ 15)
    (rest : List UInt8) :
    fastpathReadHeaderRdp (fastpathWriteUpdatePduHeader length ++ rest) =
      some (⟨0, 0, length - 3⟩, rest) := by
  have hposition : (length + 2 ^ 16 - (rest.length + 1 + 1 + 1 - rest.length)) % 2 ^ 16 =
      length - 3 := by
    omega
  simp only [fastpathWriteUpdatePduHeader, List.cons_append, List.nil_append,
    fastpathReadHeaderRdp, perReadLength_write hlen, Option.map_some, List.length_cons, hposition]
  rfl

theorem updateHeader_fields (fragmentation : Fragmentation) :
    ∀ code < 16, ∀ compression ∈ [0, 2],
      (UInt8.ofNat ((code &&& 0x0F) ||| (fragmentation.value &&& 0x03) <<< 4 |||
        (compression &&& 0x03) <<< 6)).toNat &&& 0x0F = code ∧
      fragmentationOf (UInt8.ofNat ((code &&& 0x0F) ||| (fragmentation.value &&& 0x03) <<< 4 |||
        (compression &&& 0x03) <<< 6)).toNat = fragmentation ∧
      ((UInt8.ofNat ((code &&& 0x0F) ||| (fragmentation.value &&& 0x03) <<< 4 |||
        (compression &&& 0x03) <<< 6)).toNat >>> 6) &&& 0x03 = compression := by
  cases fragmentation <;> decide

theorem readUpdate_write {updateCode flags : ℕ} {dst : List UInt8} (hcode : updateCode < 16)
    (hflags : flags < 2 ^ 8) (hlen : dst.length < 2 ^ 16) (fragmentation : Fragmentation) :
    readUpdate (fastpathWriteUpdateHeader ⟨updateCode, fragmentation,
        if flags ≠ 0 then FASTPATH_OUTPUT_COMPRESSION_USED else 0, flags, dst.length⟩ ++ dst) =
      some (⟨updateCode, fragmentation, flags, dst⟩, []) := by
  have hbody := fun header flags => readUpdateBody_append header flags dst [] hlen
  simp only [List.append_nil] at hbody
  by_cases hzero : flags = 0
  · subst hzero
    obtain ⟨h₁, h₂, h₃⟩ := updateHeader_fields fragmentation updateCode hcode 0 (by decide)
    simp only [ne_eq, not_true_eq_false, if_false, fastpathWriteUpdateHeader, List.nil_append,
      List.cons_append, readUpdate, h₃, hbody, h₁, h₂]
    rfl
  · obtain ⟨h₁, h₂, h₃⟩ := updateHeader_fields fragmentation updateCode hcode 2 (by decide)
    have hbyte : (UInt8.ofNat flags).toNat = flags := by
      rw [UInt8.toNat_ofNat', Nat.mod_eq_of_lt hflags]
    have hused : FASTPATH_OUTPUT_COMPRESSION_USED = 2 := rfl
    simp only [hzero, ne_eq, not_false_eq_true, if_true, hused, OfNat.ofNat_ne_zero,
      fastpathWriteUpdateHeader, List.cons_append, List.nil_append, readUpdate, h₃, hbody, h₁, h₂,
      hbyte]

/-! ### The codec -/

/-- The codecs of both sides are inverse to each other: `Rel` relates their states, a packet that
comes with flags is no larger than its data and gives them back, and one that does not is sent as it
is. -/
structure Codec.Inverse (codec : Codec S R) (Rel : S → R → Prop) : Prop where
  compressed : ∀ {s r src s' dst flags}, Rel s r → codec.compress s src = (s', some (dst, flags)) →
    flags ≠ 0 → flags < 2 ^ 8 ∧ flags &&& BULK_COMPRESSION_FLAGS_MASK ≠ 0 ∧
      dst.length ≤ src.length ∧ ∃ r', codec.decompress r dst flags = (r', some src) ∧ Rel s' r'
  uncompressed : ∀ {s r src s' dst}, Rel s r → codec.compress s src = (s', some (dst, 0)) → Rel s' r
  failed : ∀ {s r src s'}, Rel s r → codec.compress s src = (s', none) → Rel s' r

/-- What is sent for a fragment is no larger than its bytes and gives them back. -/
theorem compressFragment_inverse {compresses : Bool} {s s' : S} {r : R} {src dst : List UInt8}
    {flags : ℕ} (hcodec : compresses = true → codec.Inverse Rel) (hrel : Rel s r)
    (h : compressFragment codec compresses s src = (s', dst, flags)) :
    flags < 2 ^ 8 ∧ dst.length ≤ src.length ∧
      ∃ r', bulkDecompress codec r dst flags = (r', some src) ∧ Rel s' r' := by
  -- the bytes are sent as they are
  have hraw : ∀ {s'' : S}, Rel s'' r → (s'', src, 0) = (s', dst, flags) →
      flags < 2 ^ 8 ∧ dst.length ≤ src.length ∧
        ∃ r', bulkDecompress codec r dst flags = (r', some src) ∧ Rel s' r' := by
    rintro s'' hrel' heq
    simp only [Prod.mk.injEq] at heq
    obtain ⟨rfl, rfl, rfl⟩ := heq
    exact ⟨by decide, Nat.le_refl _, r, bulkDecompress_zero r src, hrel'⟩
  unfold compressFragment at h
  split_ifs at h with hcompresses
  · have hcodec := hcodec hcompresses
    unfold bulkCompress at h
    split_ifs at h with hsize
    · simp only [ne_eq, not_true_eq_false, if_false] at h
      exact hraw hrel h
    · cases hc : codec.compress s src with
      | mk s₁ result =>
        rw [hc] at h
        cases result with
        | none => exact hraw (hcodec.failed hrel hc) h
        | some p =>
          obtain ⟨dst₁, flags₁⟩ := p
          simp only at h
          split_ifs at h with hflags
          · simp only [Prod.mk.injEq] at h
            obtain ⟨rfl, rfl, rfl⟩ := h
            obtain ⟨hlt, hmask, hlen, r', hdecompress, hrel'⟩ := hcodec.compressed hrel hc hflags
            exact ⟨hlt, hlen, r', by rw [bulkDecompress, if_pos hmask, hdecompress], hrel'⟩
          · obtain rfl : flags₁ = 0 := not_not.1 hflags
            exact hraw (hcodec.uncompressed hrel hc) h
  · exact hraw hrel h

/-! ### PDUs -/

/-- `rdp_recv_fastpath_pdu` for a PDU that is not encrypted. -/
def recvPdu (codec : Codec S R) (env : Environment) (fp : Receiver R) (pdu : List UInt8) :
    Option (ℤ × Receiver R) :=
  match fastpathReadHeaderRdp pdu with
  | none => some (-1, fp)
  | some (header, s) =>
    if header.length = 0 ∨ header.length > s.length then some (-1, fp)
    else fastpathRecvUpdates codec env fp s

/-- PDUs are received in order, until one fails. -/
def recvPdus (codec : Codec S R) (env : Environment) :
    List (List UInt8) → Receiver R → Option (ℤ × Receiver R)
  | [], fp => some (0, fp)
  | pdu :: pdus, fp =>
    (recvPdu codec env fp pdu).bind fun r =>
      if r.1 < 0 then some r else recvPdus codec env pdus r.2

theorem recvPdus_append {pdus : List (List UInt8)} {fp₁ : Receiver R}
    (h : recvPdus codec env pdus fp = some (0, fp₁)) (pdus' : List (List UInt8)) :
    recvPdus codec env (pdus ++ pdus') fp = recvPdus codec env pdus' fp₁ := by
  induction pdus generalizing fp with
  | nil =>
    rw [recvPdus, Option.some_inj, Prod.mk.injEq] at h
    rw [List.nil_append, h.2]
  | cons pdu pdus ih =>
    rw [recvPdus, Option.bind_eq_some_iff] at h
    obtain ⟨r, hr, hrest⟩ := h
    rw [List.cons_append, recvPdus, hr, Option.bind_some]
    split_ifs at hrest ⊢ with hfail
    · cases hrest
      exact absurd hfail (Int.lt_irrefl 0)
    · exact ih hrest

theorem fastpathRecvUpdates_of_one {s : List UInt8} {status : ℤ} (hbegin : env.beginPaint = true)
    (hend : env.endPaint = true) (hlen : 3 ≤ s.length)
    (h : fastpathRecvUpdateData codec env fp s = (status, fp', [])) :
    fastpathRecvUpdates codec env fp s = some (if status < 0 then -3 else 0, fp') := by
  have hstep : recvStep codec env (fp, s) =
      if status < 0 then .inr (-3, fp') else .inl (fp', []) := by
    simp only [recvStep, ge_iff_le, hlen, if_true, h]
  obtain ⟨n, hn⟩ : ∃ n, s.length + 1 = n + 2 := ⟨s.length - 1, by omega⟩
  have hloop : iterate (recvStep codec env) (s.length + 1) (fp, s) =
      some (if status < 0 then -3 else 0, fp') := by
    rw [hn]
    split_ifs at hstep ⊢
    · exact iterate_inr hstep (n + 1)
    · rw [iterate_inl hstep (n + 1)]
      exact iterate_inr rfl n
  rw [fastpathRecvUpdates, if_pos hbegin, hloop, Option.map_some, if_pos hend]

theorem length_fastpathWriteUpdateHeader (h : UpdateHeader) :
    (fastpathWriteUpdateHeader h).length = fastpathGetUpdateHeaderSize h := by
  unfold fastpathWriteUpdateHeader fastpathGetUpdateHeaderSize
  split_ifs <;> rfl

/-- The PDU of a fragment is received as its bytes, decompressed. -/
theorem recvPdu_fragmentPdu {updateCode flags : ℕ} (fragmentation : Fragmentation)
    {dst data : List UInt8} {bulk : R} (hbegin : env.beginPaint = true) (hend : env.endPaint = true)
    (hcode : updateCode < 16) (hflags : flags < 2 ^ 8) (hlen : dst.length + 7 < 2 ^ 15)
    (hbulk : bulkDecompress codec fp.bulk dst flags = (bulk, some data)) :
    recvPdu codec env fp (fragmentPdu updateCode fragmentation dst flags) =
      some (if (reassemble env updateCode fragmentation
          { fp with bulk := bulk, updateData := fp.updateData.write data }).1 < 0 then -3 else 0,
        (reassemble env updateCode fragmentation
          { fp with bulk := bulk, updateData := fp.updateData.write data }).2) := by
  have hsize : dst.length % 2 ^ 16 = dst.length := Nat.mod_eq_of_lt (by omega)
  have hlt : dst.length < 2 ^ 16 := by omega
  have hread := readUpdate_write hcode hflags hlt fragmentation
  have hrecv : fastpathRecvUpdateData codec env fp _ = _ :=
    fastpathRecvUpdateData_of_read hread hbulk
  have hheader : ∀ h : UpdateHeader, 3 ≤ fastpathGetUpdateHeaderSize h ∧
      fastpathGetUpdateHeaderSize h ≤ 4 := by
    intro h
    unfold fastpathGetUpdateHeaderSize
    split_ifs <;> omega
  unfold fragmentPdu
  simp only [hsize]
  generalize hh : (⟨updateCode, fragmentation, if flags ≠ 0 then FASTPATH_OUTPUT_COMPRESSION_USED
    else 0, flags, dst.length⟩ : UpdateHeader) = header at hrecv
  have hsize' : header.size = dst.length := by rw [← hh]
  have := hheader header
  have hthree : fastpathGetUpdatePduHeaderSize = 3 := rfl
  have hstream : (fastpathWriteUpdateHeader header ++ dst).length =
      fastpathGetUpdateHeaderSize header + dst.length := by
    rw [List.length_append, length_fastpathWriteUpdateHeader]
  have hpdu : ¬ ((dst.length + (fastpathGetUpdateHeaderSize header + 3)) % 2 ^ 16 - 3 = 0 ∨
      (dst.length + (fastpathGetUpdateHeaderSize header + 3)) % 2 ^ 16 - 3 >
        (fastpathWriteUpdateHeader header ++ dst).length) := by
    omega
  unfold recvPdu
  rw [hthree, fastpathReadHeaderRdp_write (by omega) (by omega)]
  dsimp only
  rw [if_neg hpdu]
  exact fastpathRecvUpdates_of_one hbegin hend (by omega) hrecv

/-! ### The loop of the sender -/

/-- The sender is underway: the receiver has the bytes that have been sent, and more will come. -/
def Underway (codec : Codec S R) (env : Environment) (Rel : S → R → Prop) (fp : Receiver R)
    (payload : List UInt8) (s : Sender S) : Prop :=
  s.data ≠ [] ∧ ∃ fp₁ done, recvPdus codec env s.pdus fp = some (0, fp₁) ∧ payload = done ++ s.data ∧
    fp₁.Holds done ∧ fp₁.calls = fp.calls ∧ Rel s.bulk fp₁.bulk ∧
    if s.fragment = 0 then fp₁.fragmentation = none
    else fp₁.fragmentation = some .first ∨ fp₁.fragmentation = some .next

/-- Everything has been sent: the receiver has passed on the update, and waits for another. -/
def Done (codec : Codec S R) (env : Environment) (Rel : S → R → Prop) (fp : Receiver R)
    (updateCode : ℕ) (payload : List UInt8) (s : Sender S) : Prop :=
  s.data = [] ∧ s.fragment ≠ 0 ∧ ∃ fp₁,
    recvPdus codec env s.pdus fp =
      some (if env.recvUpdate (fp.calls ++ [(updateCode, payload)]) < 0 then -3 else 0, fp₁) ∧
    fp₁.calls = fp.calls ++ [(updateCode, payload)] ∧ fp₁.Idle ∧ Rel s.bulk fp₁.bulk

theorem recvPdus_singleton {pdu : List UInt8} {rc : ℤ} (hrc : rc ≤ 0)
    (h : recvPdu codec env fp pdu = some (rc, fp')) :
    recvPdus codec env [pdu] fp = some (rc, fp') := by
  rw [recvPdus, h, Option.bind_some]
  split_ifs with hneg
  · rfl
  · rw [recvPdus, show rc = 0 by omega]

/-- The last fragment is received, and the update is passed on. -/
theorem done_of_deliver {fragment updateCode : ℕ} {payload : List UInt8} {bulk : S}
    {pdus : List (List UInt8)} {fp₂ : Receiver R} (hholds : fp₂.Holds payload)
    (hcalls : fp₂.calls = fp.calls) (hfrag : fp₂.fragmentation = none) (hrel : Rel bulk fp₂.bulk)
    (hpdus : recvPdus codec env pdus fp = some (if (deliver env updateCode fp₂).1 < 0 then -3 else 0,
      (deliver env updateCode fp₂).2)) :
    Done codec env Rel fp updateCode payload ⟨fragment + 1, [], bulk, pdus⟩ := by
  refine ⟨rfl, Nat.succ_ne_zero _, (deliver env updateCode fp₂).2, ?_, ?_, ⟨hfrag, rfl⟩, hrel⟩
  · rw [hpdus, if_congr (deliver_status_neg updateCode hholds) rfl rfl, hcalls]
  · rw [deliver_of_holds updateCode hholds, hcalls]

/-- One round of the loop: the receiver gets one more fragment. -/
theorem sendFragment_spec {compresses : Bool} {maxLength updateCode : ℕ} {payload : List UInt8}
    {s : Sender S} (hcodec : compresses = true → codec.Inverse Rel) (hbegin : env.beginPaint = true)
    (hend : env.endPaint = true) (hcode : updateCode < 16)
    (hsize : payload.length ≤ env.multifragMaxRequestSize)
    (hmax : maxLength + 7 < 2 ^ 15) (hs : Underway codec env Rel fp payload s) :
    Underway codec env Rel fp payload (sendFragment codec compresses maxLength updateCode s) ∨
      Done codec env Rel fp updateCode payload
        (sendFragment codec compresses maxLength updateCode s) := by
  obtain ⟨hdata, fp₁, done, hpdus, hpayload, hholds, hcalls, hrel, hfrag⟩ := hs
  cases hc : compressFragment codec compresses s.bulk (s.data.take maxLength) with
  | mk bulk result =>
    obtain ⟨dst, flags⟩ := result
    obtain ⟨hflags, hdst, r', hbulk, hrel'⟩ := compressFragment_inverse hcodec hrel hc
    have hdst' : dst.length + 7 < 2 ^ 15 := by
      have : (s.data.take maxLength).length ≤ maxLength := List.length_take_le _ _
      omega
    have hwrite := hholds.write r' (s.data.take maxLength)
    have hposition := hwrite.position
    have hpayload' : payload = done ++ s.data.take maxLength ++ s.data.drop maxLength := by
      rw [List.append_assoc, List.take_append_drop, hpayload]
    have hroom : (done ++ s.data.take maxLength).length ≤ env.multifragMaxRequestSize := by
      rw [hpayload', List.length_append] at hsize
      omega
    have hpdu : ∀ fragmentation, recvPdus codec env
        (s.pdus ++ [fragmentPdu updateCode fragmentation dst flags]) fp = _ := fun fragmentation =>
      (recvPdus_append hpdus _).trans (recvPdus_singleton (by split_ifs <;> decide)
        (recvPdu_fragmentPdu fragmentation hbegin hend hcode hflags hdst' hbulk))
    generalize hfp₂ : ({ fp₁ with
      bulk := r', updateData := fp₁.updateData.write (s.data.take maxLength) } : Receiver R) = fp₂
      at hwrite hposition hpdu
    have hcalls₂ : fp₂.calls = fp.calls := by rw [← hfp₂, ← hcalls]
    have hfrag₂ : fp₂.fragmentation = fp₁.fragmentation := by rw [← hfp₂]
    have hrel₂ : Rel bulk fp₂.bulk := by rwa [← hfp₂]
    have hroom₂ : fp₂.updateData.position ≤ env.multifragMaxRequestSize := by rwa [hposition]
    rw [← hfrag₂] at hfrag
    have hnext : sendFragment codec compresses maxLength updateCode s =
        ⟨s.fragment + 1, s.data.drop maxLength, bulk, s.pdus ++ [fragmentPdu updateCode
          (fragmentationFor s.fragment (s.data.drop maxLength).length) dst flags]⟩ := by
      simp only [sendFragment, hc]
    rw [hnext]
    by_cases hrest : s.data.drop maxLength = []
    · -- the last fragment
      right
      rw [hrest, List.append_nil] at hpayload'
      rw [← hpayload'] at hwrite
      rw [hrest, List.length_nil]
      by_cases hfirst : s.fragment = 0
      · rw [if_pos hfirst] at hfrag
        have hkind : fragmentationFor s.fragment 0 = .single := by simp [fragmentationFor, hfirst]
        rw [hkind]
        apply done_of_deliver hwrite hcalls₂ hfrag hrel₂
        rw [hpdu, reassemble_single _ hfrag]
      · rw [if_neg hfirst] at hfrag
        have hkind : fragmentationFor s.fragment 0 = .last := by simp [fragmentationFor, hfirst]
        have hwrite' : { fp₂ with fragmentation := none }.Holds payload := hwrite
        rw [hkind]
        apply done_of_deliver hwrite' hcalls₂ rfl hrel₂
        rw [hpdu, reassemble_last _ hfrag hroom₂]
    · left
      have hlen : (s.data.drop maxLength).length ≠ 0 := fun h =>
        hrest (List.eq_nil_of_length_eq_zero h)
      by_cases hfirst : s.fragment = 0
      · rw [if_pos hfirst] at hfrag
        have hkind : fragmentationFor s.fragment (s.data.drop maxLength).length = .first := by
          rw [fragmentationFor, if_neg hlen, if_pos hfirst]
        have hr := hpdu .first
        rw [reassemble_first _ hfrag hroom₂] at hr
        rw [hkind]
        exact ⟨hrest, _, _, hr, hpayload', hwrite, hcalls₂, hrel₂, by simp⟩
      · rw [if_neg hfirst] at hfrag
        have hkind : fragmentationFor s.fragment (s.data.drop maxLength).length = .next := by
          rw [fragmentationFor, if_neg hlen, if_neg hfirst]
        have hr := hpdu .next
        rw [reassemble_next _ hfrag hroom₂] at hr
        rw [hkind]
        exact ⟨hrest, _, _, hr, hpayload', hwrite, hcalls₂, hrel₂, by simp⟩

theorem sendStep_done {compresses : Bool} {maxLength updateCode : ℕ} {payload : List UInt8}
    {s : Sender S} (h : Done codec env Rel fp updateCode payload s) :
    sendStep codec compresses maxLength updateCode s = .inr s := by
  obtain ⟨hdata, hfragment, -⟩ := h
  rw [sendStep, hdata, if_neg (by simp [hfragment])]

/-- The loop over the fragments of an update that has bytes ends when they have all been sent. -/
theorem sendLoop_underway {compresses : Bool} {maxLength updateCode : ℕ} {payload : List UInt8} {bulk : S}
    (hcodec : compresses = true → codec.Inverse Rel) (hbegin : env.beginPaint = true)
    (hend : env.endPaint = true) (hcode : updateCode < 16)
    (hsize : payload.length ≤ env.multifragMaxRequestSize) (hmax : 0 < maxLength)
    (hmax' : maxLength + 7 < 2 ^ 15) (hidle : fp.Idle) (hrel : Rel bulk fp.bulk) (hne : payload ≠ []) :
    ∃ s, iterate (sendStep codec compresses maxLength updateCode) (payload.length + 2)
        ⟨0, payload, bulk, []⟩ = some s ∧ Done codec env Rel fp updateCode payload s := by
  have hstart : Underway codec env Rel fp payload ⟨0, payload, bulk, []⟩ := by
    refine ⟨hne, fp, [], rfl, rfl, holds_nil_iff.2 hidle.2, rfl, hrel, ?_⟩
    rw [if_pos rfl]
    exact hidle.1
  refine iterate_rule _ (I := fun s => Underway codec env Rel fp payload s ∨
    Done codec env Rel fp updateCode payload s) (μ := fun s => s.data.length) ?_ ?_ (.inl hstart)
    (by simp only; omega)
  · rintro s s' (hs | hs) hstep
    · have hdata := List.length_pos_iff.2 hs.1
      rw [sendStep, if_pos (.inl hdata), Sum.inl.injEq] at hstep
      subst hstep
      refine ⟨sendFragment_spec hcodec hbegin hend hcode hsize hmax' hs, ?_⟩
      simp only [sendFragment, List.length_drop]
      omega
    · rw [sendStep_done hs] at hstep
      cases hstep
  · rintro s s' (hs | hs) hstep
    · rw [sendStep, if_pos (.inl (List.length_pos_iff.2 hs.1))] at hstep
      cases hstep
    · rw [sendStep_done hs] at hstep
      cases hstep
      exact hs

theorem maxLength_bounds (settings : Settings) (skipCompression : Bool) :
    0 < settings.maxLength skipCompression ∧ settings.maxLength skipCompression + 7 < 2 ^ 15 := by
  have hmax : FASTPATH_MAX_PACKET_SIZE = 0x3FFF := rfl
  unfold Settings.maxLength bulkCompressionMaxSize
  split_ifs <;> omega

/-- An update that is sent, compressed or not, is received as one update with the same code and
bytes, and the receiver waits for another. -/
theorem recvPdus_fastpathSendUpdatePdu (codec : Codec S R) (Rel : S → R → Prop)
    (settings : Settings) (skipCompression : Bool) (env : Environment) (bulk bulk' : S)
    (fp : Receiver R) (updateCode : ℕ) (payload : List UInt8) (pdus : List (List UInt8))
    (hcodec : settings.compresses skipCompression = true → codec.Inverse Rel)
    (hrel : Rel bulk fp.bulk) (hbegin : env.beginPaint = true) (hend : env.endPaint = true)
    (hcode : updateCode < 16) (hpos : 0 < payload.length)
    (hsize : payload.length ≤ env.multifragMaxRequestSize) (hidle : fp.Idle)
    (hsend : fastpathSendUpdatePdu codec settings bulk updateCode payload skipCompression =
      some (bulk', pdus)) :
    ∃ fp', recvPdus codec env pdus fp =
        some (if env.recvUpdate (fp.calls ++ [(updateCode, payload)]) < 0 then -3 else 0, fp') ∧
      fp'.calls = fp.calls ++ [(updateCode, payload)] ∧ fp'.Idle ∧ Rel bulk' fp'.bulk := by
  obtain ⟨hmax, hmax'⟩ := maxLength_bounds settings skipCompression
  obtain ⟨s, hloop, hdone⟩ := sendLoop_underway hcodec hbegin hend hcode hsize hmax hmax' hidle hrel
    (List.length_pos_iff.1 hpos)
  unfold fastpathSendUpdatePdu at hsend
  split_ifs at hsend
  rw [hloop, Option.map_some, Option.some_inj, Prod.mk.injEq] at hsend
  obtain ⟨rfl, rfl⟩ := hsend
  exact hdone.2.2

/-- What `mppc_compress` makes of 60 equal bytes in a fresh context with 64 KiB of history. -/
def samplePacket : List UInt8 :=
  [65, 65, 65, 248, 81, 241, 43, 227, 97, 242, 50, 249, 90, 124, 205, 144, 80, 80, 64]

def Codec.sample : Codec Unit Unit :=
  ⟨fun _ src => ((), if src = List.replicate 60 65 then some (samplePacket, 0x61) else none),
    fun _ dst _ => ((), if dst = samplePacket then some (List.replicate 60 65) else none)⟩

theorem Codec.sample_inverse : Codec.sample.Inverse fun _ _ => True where
  compressed := by
    intro s r src s' dst flags _ hc _
    simp only [Codec.sample] at hc ⊢
    split_ifs at hc with hsrc
    · simp only [Prod.mk.injEq, Option.some_inj] at hc
      obtain ⟨-, rfl, rfl⟩ := hc
      subst hsrc
      exact ⟨by decide, by decide, by decide, (), rfl, trivial⟩
    · simp at hc
  uncompressed _ _ := trivial
  failed _ _ := trivial

/-- The fragments of an update of 8232 bytes, the last of which is compressed. -/
def samplePdus : List (List UInt8) :=
  [fragmentPdu 4 .first (List.replicate 8172 65) 0, fragmentPdu 4 .last samplePacket 0x61]

theorem fastpathSendUpdatePdu_sample :
    fastpathSendUpdatePdu Codec.sample ⟨true, 0, true, 20000⟩ () 4 (List.replicate 8232 65) false =
      some ((), samplePdus) := by
  have hne : (List.replicate 8172 65 : List UInt8) ≠ List.replicate 60 65 := fun h => by
    have hlength := congrArg List.length h
    rw [List.length_replicate, List.length_replicate] at hlength
    omega
  have hraw : compressFragment Codec.sample true () (List.replicate 8172 65) =
      ((), List.replicate 8172 65, 0) := by
    unfold compressFragment bulkCompress Codec.sample
    rw [if_pos rfl, List.length_replicate, if_neg (by decide)]
    dsimp only
    rw [if_neg hne]
  have hfirst : sendStep Codec.sample true 8172 4 ⟨0, List.replicate 8232 65, (), []⟩ =
      .inl ⟨1, List.replicate 60 65, (), samplePdus.take 1⟩ := by
    have htake : (List.replicate 8232 65 : List UInt8).take 8172 = List.replicate 8172 65 :=
      List.take_replicate
    have hdrop : (List.replicate 8232 65 : List UInt8).drop 8172 = List.replicate 60 65 :=
      List.drop_replicate
    rw [sendStep, if_pos (.inr rfl), sendFragment, htake, hdrop, hraw]
    rfl
  have hlast : sendStep Codec.sample true 8172 4 ⟨1, List.replicate 60 65, (), samplePdus.take 1⟩ =
      .inl ⟨2, [], (), samplePdus⟩ := by
    rfl
  have hend : sendStep Codec.sample true 8172 4 ⟨2, [], (), samplePdus⟩ =
      .inr ⟨2, [], (), samplePdus⟩ := rfl
  unfold fastpathSendUpdatePdu
  rw [if_neg (by decide), List.length_replicate, if_neg (by decide)]
  show (iterate (sendStep Codec.sample true 8172 4) 8234 _).map _ = _
  rw [iterate_inl hfirst, iterate_inl hlast, iterate_inr hend]
  rfl

theorem recvPdus_fastpathSendUpdatePdu_sample :
    ∃ fp', recvPdus Codec.sample ⟨20000, fun _ => 0, true, true⟩ samplePdus (fastpathNew ()) =
        some (0, fp') ∧
      fp'.calls = [(4, List.replicate 8232 65)] ∧ fp'.Idle ∧ True :=
  recvPdus_fastpathSendUpdatePdu Codec.sample (fun _ _ => True) ⟨true, 0, true, 20000⟩ false
    ⟨20000, fun _ => 0, true, true⟩ () () (fastpathNew ()) 4 (List.replicate 8232 65) _
    (fun _ => Codec.sample_inverse) trivial rfl rfl (by decide)
    (by rw [List.length_replicate]; decide) (by rw [List.length_replicate]; decide) ⟨rfl, rfl⟩
    fastpathSendUpdatePdu_sample

end FreeRDP.FastPath
