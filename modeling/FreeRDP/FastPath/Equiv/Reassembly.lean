import FreeRDP.FastPath.Basic
import FreeRDP.Zgfx.Equiv.Framing

/-!
# Reassembly

What the receiver makes of a sequence of fragments that are not compressed.  As long as no call
fails, the fragments are whole updates followed by the front of another one, and exactly the whole
updates have been passed on (`Assembled`).
-/

namespace FreeRDP.FastPath

open ForwardCopy Iterate
open Zgfx (WStream slice u16le readU16 readU16_u16le)

variable {S R : Type} {codec : Codec S R} {env : Environment} {fp fp' : Receiver R}

/-! ### The stream of the receiver -/

/-- The stream holds the bytes `data`. -/
def Receiver.Holds (fp : Receiver R) (data : List UInt8) : Prop :=
  slice fp.updateData.buffer 0 fp.updateData.position = data

theorem Receiver.Holds.position {data : List UInt8} (h : fp.Holds data) :
    fp.updateData.position = data.length := by
  rw [← h, slice, List.length_map, List.length_range]

theorem holds_nil_iff : fp.Holds [] ↔ fp.updateData.position = 0 := by
  constructor
  · intro h
    exact h.position
  · intro h
    rw [Receiver.Holds, h]
    rfl

theorem Receiver.Holds.write {data : List UInt8} (h : fp.Holds data) (bulk : R)
    (bytes : List UInt8) :
    { fp with bulk := bulk, updateData := fp.updateData.write bytes }.Holds (data ++ bytes) := by
  unfold Receiver.Holds at h ⊢
  rw [← h]
  simpa [slice, WStream.write] using
    map_range_store fp.updateData.buffer fp.updateData.position bytes

/-! ### One fragment -/

/-- A fragment that is not compressed, as the header and the bytes of an update. -/
structure Fragment where
  updateHeader : UInt8
  payload : List UInt8
  uncompressed : (updateHeader.toNat >>> 6) &&& 0x03 ≠ FASTPATH_OUTPUT_COMPRESSION_USED
  length_lt : payload.length < 2 ^ 16

namespace Fragment

def updateCode (x : Fragment) : ℕ := x.updateHeader.toNat &&& 0x0F

def fragmentation (x : Fragment) : Fragmentation := fragmentationOf x.updateHeader.toNat

def bytes (x : Fragment) : List UInt8 := x.updateHeader :: (u16le x.payload.length ++ x.payload)

end Fragment

theorem readUpdateBody_append (updateHeader flags : ℕ) (data rest : List UInt8)
    (hlen : data.length < 2 ^ 16) :
    readUpdateBody updateHeader flags (u16le data.length ++ data ++ rest) =
      some (⟨updateHeader &&& 0x0F, fragmentationOf updateHeader, flags, data⟩, rest) := by
  have hsize : readU16 (u16le data.length ++ data ++ rest) = data.length := by
    rw [List.append_assoc, readU16_u16le hlen]
  have hdrop : (u16le data.length ++ data ++ rest).drop 2 = data ++ rest := rfl
  unfold readUpdateBody
  rw [hsize, hdrop, if_neg (by simp [u16le]), if_neg (by simp), List.take_left, List.drop_left]

/-- An update that is read and decompressed is written to the stream and looked at. -/
theorem fastpathRecvUpdateData_of_read {s rest data : List UInt8} {u : Update} {bulk : R}
    (hread : readUpdate s = some (u, rest))
    (hbulk : bulkDecompress codec fp.bulk u.data u.compressionFlags = (bulk, some data)) :
    fastpathRecvUpdateData codec env fp s =
      ((reassemble env u.updateCode u.fragmentation
          { fp with bulk := bulk, updateData := fp.updateData.write data }).1,
        (reassemble env u.updateCode u.fragmentation
          { fp with bulk := bulk, updateData := fp.updateData.write data }).2, rest) := by
  unfold fastpathRecvUpdateData
  simp only [hread, hbulk]

theorem readUpdate_fragment (x : Fragment) (rest : List UInt8) :
    readUpdate (x.bytes ++ rest) = some (⟨x.updateCode, x.fragmentation, 0, x.payload⟩, rest) := by
  have hbody := readUpdateBody_append x.updateHeader.toNat 0 x.payload rest x.length_lt
  simp only [Fragment.bytes, List.cons_append, readUpdate]
  rw [if_neg x.uncompressed, hbody]
  rfl

theorem bulkDecompress_zero (bulk : R) (src : List UInt8) :
    bulkDecompress codec bulk src 0 = (bulk, some src) := by
  rw [bulkDecompress, if_neg (by simp)]

/-! ### What is passed on -/

theorem deliver_of_holds {data : List UInt8} (updateCode : ℕ) (h : fp.Holds data) :
    (deliver env updateCode fp).2.calls = fp.calls ++ [(updateCode, data)] := by
  rw [← h]
  rfl

theorem deliver_status_neg {data : List UInt8} (updateCode : ℕ) (h : fp.Holds data) :
    (deliver env updateCode fp).1 < 0 ↔ env.recvUpdate (fp.calls ++ [(updateCode, data)]) < 0 := by
  rw [← h]
  simp only [deliver]
  split_ifs with hneg
  · exact ⟨fun _ => hneg, fun _ => by decide⟩
  · rfl

/-- What a fragment does: it is refused, or it comes when it may, a single one or a first one
between two updates and the others behind a first one. -/
theorem reassemble_cases (env : Environment) (updateCode : ℕ) (fragmentation : Fragmentation)
    (fp : Receiver R) :
    reassemble env updateCode fragmentation fp = (-1, fp) ∨
    (fragmentation = .single ∧ fp.fragmentation = none ∧
      reassemble env updateCode fragmentation fp = deliver env updateCode fp) ∨
    (fragmentation = .first ∧ fp.fragmentation = none ∧
      fp.updateData.position ≤ env.multifragMaxRequestSize ∧
      reassemble env updateCode fragmentation fp = (0, { fp with fragmentation := some .first })) ∨
    (fragmentation = .next ∧ (fp.fragmentation = some .first ∨ fp.fragmentation = some .next) ∧
      fp.updateData.position ≤ env.multifragMaxRequestSize ∧
      reassemble env updateCode fragmentation fp = (0, { fp with fragmentation := some .next })) ∨
    (fragmentation = .last ∧ (fp.fragmentation = some .first ∨ fp.fragmentation = some .next) ∧
      fp.updateData.position ≤ env.multifragMaxRequestSize ∧
      reassemble env updateCode fragmentation fp =
        deliver env updateCode { fp with fragmentation := none }) := by
  unfold reassemble
  split_ifs with hsingle hidle hsize hfirst hidle hbehind hnext
  · exact .inl rfl
  · exact .inr (.inl ⟨hsingle, not_not.1 hidle, rfl⟩)
  · exact .inl rfl
  · exact .inl rfl
  · exact .inr (.inr (.inl ⟨hfirst, not_not.1 hidle, Nat.le_of_not_lt hsize, rfl⟩))
  · exact .inl rfl
  · have hbehind : fp.fragmentation = some .first ∨ fp.fragmentation = some .next := by
      tauto
    exact .inr (.inr (.inr (.inl ⟨hnext, hbehind, Nat.le_of_not_lt hsize, rfl⟩)))
  · have hlast : fragmentation = .last := by
      cases fragmentation <;> simp_all
    have hbehind : fp.fragmentation = some .first ∨ fp.fragmentation = some .next := by
      tauto
    exact .inr (.inr (.inr (.inr ⟨hlast, hbehind, Nat.le_of_not_lt hsize, rfl⟩)))

theorem reassemble_single (updateCode : ℕ) (hidle : fp.fragmentation = none) :
    reassemble env updateCode .single fp = deliver env updateCode fp := by
  simp [reassemble, hidle]

theorem reassemble_first (updateCode : ℕ) (hidle : fp.fragmentation = none)
    (hsize : fp.updateData.position ≤ env.multifragMaxRequestSize) :
    reassemble env updateCode .first fp = (0, { fp with fragmentation := some .first }) := by
  simp [reassemble, hidle, hsize]

theorem reassemble_next (updateCode : ℕ)
    (hbehind : fp.fragmentation = some .first ∨ fp.fragmentation = some .next)
    (hsize : fp.updateData.position ≤ env.multifragMaxRequestSize) :
    reassemble env updateCode .next fp = (0, { fp with fragmentation := some .next }) := by
  rcases hbehind with hbehind | hbehind <;> simp [reassemble, hbehind, hsize]

theorem reassemble_last (updateCode : ℕ)
    (hbehind : fp.fragmentation = some .first ∨ fp.fragmentation = some .next)
    (hsize : fp.updateData.position ≤ env.multifragMaxRequestSize) :
    reassemble env updateCode .last fp =
      deliver env updateCode { fp with fragmentation := none } := by
  rcases hbehind with hbehind | hbehind <;> simp [reassemble, hbehind, hsize]

/-! ### Sequences of fragments -/

/-- The fragments are received one after another, until a call fails. -/
def recvFragments (codec : Codec S R) (env : Environment) :
    List Fragment → Receiver R → ℤ × Receiver R
  | [], fp => (0, fp)
  | x :: xs, fp =>
    let r := fastpathRecvUpdateData codec env fp x.bytes
    if r.1 < 0 then (r.1, r.2.1) else recvFragments codec env xs r.2.1

/-- The fragments of one update: a single one, or a first one, any number of next ones and a last
one. -/
def IsUpdate (u : List Fragment) : Prop :=
  (∃ x, u = [x] ∧ x.fragmentation = .single) ∨
    ∃ x ys z, u = x :: (ys ++ [z]) ∧ x.fragmentation = .first ∧
      (∀ y ∈ ys, y.fragmentation = .next) ∧ z.fragmentation = .last

/-- The front of an update: nothing, or a first fragment and any number of next ones. -/
def IsFront (u : List Fragment) : Prop :=
  u = [] ∨ ∃ x ys, u = x :: ys ∧ x.fragmentation = .first ∧ ∀ y ∈ ys, y.fragmentation = .next

/-- The payloads of fragments, joined. -/
def payloads (u : List Fragment) : List UInt8 := u.flatMap Fragment.payload

/-- The call that an update leads to: the code of its last fragment and the joined payloads. -/
def callOf (u : List Fragment) : ℕ × List UInt8 :=
  ((u.getLast?.map Fragment.updateCode).getD 0, payloads u)

/-- An update whose fragments are together no larger than the receiver allows. -/
def IsBounded (env : Environment) (u : List Fragment) : Prop :=
  u.length = 1 ∨ (payloads u).length ≤ env.multifragMaxRequestSize

/-- The state after the fragments `xs`: the updates `us` have been passed on, and the front of
another one is in the stream. -/
structure Assembled (env : Environment) (calls : List (ℕ × List UInt8)) (xs : List Fragment)
    (us : List (List Fragment)) (front : List Fragment) (fp : Receiver R) : Prop where
  fragments : xs = us.flatten ++ front
  updates : ∀ u ∈ us, IsUpdate u ∧ IsBounded env u
  isFront : IsFront front
  calls : fp.calls = calls ++ us.map callOf
  holds : fp.Holds (payloads front)
  bounded : (payloads front).length ≤ env.multifragMaxRequestSize
  fragmentation : fp.fragmentation = none ∧ front = [] ∨
    (fp.fragmentation = some .first ∨ fp.fragmentation = some .next) ∧ front ≠ []

theorem assembled_nil (h : fp.Idle) : Assembled env fp.calls [] [] [] fp where
  fragments := rfl
  updates u hu := absurd hu List.not_mem_nil
  isFront := .inl rfl
  calls := by rw [List.map_nil, List.append_nil]
  holds := holds_nil_iff.2 h.2
  bounded := Nat.zero_le _
  fragmentation := .inl ⟨h.1, rfl⟩

@[simp] theorem payloads_append (u v : List Fragment) :
    payloads (u ++ v) = payloads u ++ payloads v := List.flatMap_append

theorem callOf_concat (u : List Fragment) (x : Fragment) :
    callOf (u ++ [x]) = (x.updateCode, payloads (u ++ [x])) := by
  simp [callOf]

theorem IsFront.next {front : List Fragment} (h : IsFront front) (hne : front ≠ []) {x : Fragment}
    (hx : x.fragmentation = .next) : IsFront (front ++ [x]) := by
  obtain ⟨y, ys, rfl, hy, hys⟩ := h.resolve_left hne
  refine .inr ⟨y, ys ++ [x], rfl, hy, ?_⟩
  intro z hz
  rcases List.mem_append.1 hz with hz | hz
  · exact hys z hz
  · rw [List.mem_singleton.1 hz, hx]

theorem IsFront.last {front : List Fragment} (h : IsFront front) (hne : front ≠ []) {x : Fragment}
    (hx : x.fragmentation = .last) : IsUpdate (front ++ [x]) := by
  obtain ⟨y, ys, rfl, hy, hys⟩ := h.resolve_left hne
  exact .inr ⟨y, ys, x, rfl, hy, hys, hx⟩

theorem Assembled.front_eq_nil {calls : List (ℕ × List UInt8)} {xs front : List Fragment}
    {us : List (List Fragment)} (h : Assembled env calls xs us front fp)
    (hidle : fp.fragmentation = none) : front = [] := by
  rcases h.fragmentation with ⟨-, hfront⟩ | ⟨hsome, -⟩
  · exact hfront
  · rcases hsome with hsome | hsome <;> simp [hsome] at hidle

theorem Assembled.front_ne_nil {calls : List (ℕ × List UInt8)} {xs front : List Fragment}
    {us : List (List Fragment)} (h : Assembled env calls xs us front fp)
    (hbehind : fp.fragmentation = some .first ∨ fp.fragmentation = some .next) : front ≠ [] := by
  rcases h.fragmentation with ⟨hnone, -⟩ | ⟨-, hne⟩
  · simp [hnone] at hbehind
  · exact hne

/-- An update has been completed by the fragment `x`. -/
theorem Assembled.complete {calls : List (ℕ × List UInt8)} {xs front : List Fragment}
    {us : List (List Fragment)} (h : Assembled env calls xs us front fp) {x : Fragment}
    (hupdate : IsUpdate (front ++ [x])) (hbounded : IsBounded env (front ++ [x]))
    (hholds : fp'.Holds (payloads (front ++ [x]))) (hcalls : fp'.calls = fp.calls)
    (hidle : fp'.fragmentation = none) :
    Assembled env calls (xs ++ [x]) (us ++ [front ++ [x]]) []
      (deliver env x.updateCode fp').2 where
  fragments := by
    rw [h.fragments, List.flatten_append, List.flatten_singleton, List.append_nil,
      List.append_assoc]
  updates u hu := by
    rcases List.mem_append.1 hu with hu | hu
    · exact h.updates u hu
    · rw [List.mem_singleton.1 hu]
      exact ⟨hupdate, hbounded⟩
  isFront := .inl rfl
  calls := by
    rw [deliver_of_holds x.updateCode hholds, hcalls, h.calls, List.map_append, List.map_singleton,
      callOf_concat, List.append_assoc]
  holds := holds_nil_iff.2 rfl
  bounded := Nat.zero_le _
  fragmentation := .inl ⟨hidle, rfl⟩

/-- One more fragment: it is refused, or it belongs to the update that has begun, or it completes an
update, which is passed on. -/
theorem Assembled.recv {calls : List (ℕ × List UInt8)} {xs front : List Fragment}
    {us : List (List Fragment)} (h : Assembled env calls xs us front fp) (codec : Codec S R)
    (x : Fragment) :
    ∃ status fp', fastpathRecvUpdateData codec env fp x.bytes = (status, fp', []) ∧
      (status = -1 ∧ fp'.calls = fp.calls ∨
        status = 0 ∧ Assembled env calls (xs ++ [x]) us (front ++ [x]) fp' ∨
        Assembled env calls (xs ++ [x]) (us ++ [front ++ [x]]) [] fp') := by
  have hrecv : fastpathRecvUpdateData codec env fp (x.bytes ++ []) = _ :=
    fastpathRecvUpdateData_of_read (readUpdate_fragment x []) (bulkDecompress_zero _ _)
  rw [List.append_nil] at hrecv
  refine ⟨_, _, hrecv, ?_⟩
  have hholds := h.holds.write fp.bulk x.payload
  have hpayload : payloads front ++ x.payload = payloads (front ++ [x]) := by
    simp [payloads]
  rw [hpayload] at hholds
  have hposition := hholds.position
  rcases reassemble_cases env x.updateCode x.fragmentation
    { fp with updateData := fp.updateData.write x.payload } with
    heq | ⟨hx, hidle, heq⟩ | ⟨hx, hidle, hsize, heq⟩ | ⟨hx, hbehind, hsize, heq⟩ |
      ⟨hx, hbehind, hsize, heq⟩
  all_goals simp only [heq]
  · exact .inl ⟨trivial, trivial⟩
  · -- a single fragment between two updates
    right; right
    obtain rfl := h.front_eq_nil hidle
    exact h.complete (.inl ⟨x, rfl, hx⟩) (.inl rfl) hholds rfl hidle
  · -- a first fragment between two updates
    right; left
    obtain rfl := h.front_eq_nil hidle
    refine ⟨trivial, ?_, h.updates, .inr ⟨x, [], rfl, hx, by simp⟩, h.calls, hholds, ?_,
      .inr ⟨.inl rfl, by simp⟩⟩
    · rw [h.fragments, List.append_assoc]
    · rwa [← hposition]
  · -- a next fragment
    right; left
    have hne := h.front_ne_nil hbehind
    refine ⟨trivial, ?_, h.updates, h.isFront.next hne hx, h.calls, hholds, ?_, .inr ⟨.inr rfl, by simp⟩⟩
    · rw [h.fragments, List.append_assoc]
    · rwa [← hposition]
  · -- the last fragment
    right; right
    have hne := h.front_ne_nil hbehind
    refine h.complete (h.isFront.last hne hx) (.inr ?_) hholds rfl rfl
    rwa [← hposition]

theorem Assembled.recvFragments {calls : List (ℕ × List UInt8)} {xs front : List Fragment}
    {us : List (List Fragment)} (h : Assembled env calls xs us front fp) (ys : List Fragment) :
    ∃ zs us' front' fp', zs <+: ys ∧ Assembled env calls (xs ++ zs) us' front' fp' ∧
      (recvFragments codec env ys fp).2.calls = fp'.calls ∧
      (0 ≤ (recvFragments codec env ys fp).1 → zs = ys ∧ (recvFragments codec env ys fp).2 = fp') := by
  induction ys generalizing xs us front fp with
  | nil =>
    exact ⟨[], us, front, fp, List.prefix_rfl, by rwa [List.append_nil], rfl, fun _ => ⟨rfl, rfl⟩⟩
  | cons y ys ih =>
    obtain ⟨status, fp₁, hrecv, hcases⟩ := h.recv codec y
    rw [FastPath.recvFragments]
    simp only [hrecv]
    split_ifs with hfail
    · -- the call fails, after it has passed on an update or not
      rcases hcases with ⟨-, hcalls⟩ | ⟨rfl, -⟩ | hnext
      · exact ⟨[], us, front, fp, List.nil_prefix, by rwa [List.append_nil], hcalls,
          fun hok => by simp at hok; omega⟩
      · omega
      · exact ⟨[y], _, _, fp₁, List.cons_prefix_cons.2 ⟨rfl, List.nil_prefix⟩, hnext, rfl,
          fun hok => by simp at hok; omega⟩
    · obtain ⟨us₁, front₁, h₁⟩ : ∃ us' front', Assembled env calls (xs ++ [y]) us' front' fp₁ := by
        rcases hcases with ⟨rfl, -⟩ | ⟨-, hnext⟩ | hnext
        · omega
        · exact ⟨_, _, hnext⟩
        · exact ⟨_, _, hnext⟩
      obtain ⟨zs, us', front', fp', hzs, h', hcalls, hok⟩ := ih h₁
      refine ⟨y :: zs, us', front', fp', List.cons_prefix_cons.2 ⟨rfl, hzs⟩, ?_, hcalls, ?_⟩
      · rwa [List.append_assoc] at h'
      · intro hstatus
        obtain ⟨rfl, heq⟩ := hok hstatus
        exact ⟨rfl, heq⟩

/-- Whatever fragments are received, the updates that are passed on are whole ones: their fragments
come one behind the other, from a single one or a first one to a last one, and no update that has
been put together is larger than the receiver allows.  If no call fails, every whole update has been
passed on, and what the stream holds of the next one is no larger either. -/
theorem recvFragments_whole (codec : Codec S R) (env : Environment) (fp : Receiver R)
    (xs : List Fragment) (hidle : fp.Idle) :
    (∃ us : List (List Fragment), us.flatten <+: xs ∧ (∀ u ∈ us, IsUpdate u ∧ IsBounded env u) ∧
      (recvFragments codec env xs fp).2.calls = fp.calls ++ us.map callOf) ∧
    (0 ≤ (recvFragments codec env xs fp).1 →
      (recvFragments codec env xs fp).2.updateData.position ≤ env.multifragMaxRequestSize ∧
      ∃ (us : List (List Fragment)) (front : List Fragment), xs = us.flatten ++ front ∧
        (∀ u ∈ us, IsUpdate u ∧ IsBounded env u) ∧ IsFront front ∧
          (recvFragments codec env xs fp).2.calls = fp.calls ++ us.map callOf) := by
  obtain ⟨zs, us, front, fp', hzs, h', hcalls, hok⟩ := (assembled_nil hidle).recvFragments xs
  rw [List.nil_append] at h'
  constructor
  · refine ⟨us, ?_, h'.updates, by rw [hcalls, h'.calls]⟩
    refine List.IsPrefix.trans ?_ hzs
    rw [h'.fragments]
    exact List.prefix_append _ _
  · intro hstatus
    obtain ⟨rfl, heq⟩ := hok hstatus
    refine ⟨?_, us, front, h'.fragments, h'.updates, h'.isFront, by rw [hcalls, h'.calls]⟩
    rw [heq, h'.holds.position]
    exact h'.bounded

/-- A codec that sends everything as it is. -/
def Codec.raw : Codec Unit Unit := ⟨fun _ src => ((), some (src, 0)), fun _ src _ => ((), some src)⟩

/-- A receiver that accepts everything up to 16 bytes. -/
def Environment.lenient : Environment := ⟨16, fun _ => 0, true, true⟩

/-- A single fragment, a first and a last one, and a first one. -/
theorem recvFragments_whole_four :
    let xs : List Fragment := [⟨0x01, [1], by decide, by decide⟩, ⟨0x24, [2], by decide, by decide⟩,
      ⟨0x14, [3], by decide, by decide⟩, ⟨0x20, [4], by decide, by decide⟩]
    (recvFragments Codec.raw .lenient xs (fastpathNew ())).2.calls = [(1, [1]), (4, [2, 3])] ∧
      (recvFragments Codec.raw .lenient xs (fastpathNew ())).2.updateData.position ≤ 16 :=
  ⟨by rfl, ((recvFragments_whole Codec.raw .lenient (fastpathNew ()) _ ⟨rfl, rfl⟩).2 (by decide)).1⟩

end FreeRDP.FastPath
