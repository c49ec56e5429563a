import FreeRDP.Gateway.Chunked
import Mathlib.Tactic.IntervalCases

/-!
# Chunks that arrive in pieces

`Chunked.Decodes ctx stream todo`: the context has read the beginning of an encoded list of chunks,
`stream` is the rest of it, and `todo` is the data that has not been returned yet.  The three
constructors that matter are the three states; in each one `nextOffset` and `headerFooterPos` say how
much of the current part is left, so that the assertions hold.

`rdgChunckedRead_delivers`: a read keeps this, and the data that it returns is taken off `todo`.
-/

namespace FreeRDP.Gateway

variable {ctx : Chunked} {net : List (List UInt8)}
  {digits rest stream todo data buffer : List UInt8} {n size acc : ℕ}

/-! ### Chunks -/

/-- A chunk: the number of its bytes in hexadecimal digits, and its bytes. -/
structure Chunk where
  digits : List UInt8
  data : List UInt8
  digits_ne : digits ≠ []
  length_digits : digits.length ≤ 8
  hex : ∀ c ∈ digits, (hexValue c).isSome
  value : strtoulDigits 0 digits = data.length
  data_ne : data ≠ []

/-- The bytes of a chunk in front of its data. -/
def Chunk.header (c : Chunk) : List UInt8 := c.digits ++ [13, 10]

/-- The bytes of a chunk behind its header. -/
def Chunk.body (c : Chunk) : List UInt8 := c.data ++ [13, 10]

def Chunk.encode (c : Chunk) : List UInt8 := c.header ++ c.body

/-- A context that has read a part of a stream of chunks, the rest of the stream, and the data that is
still to be returned. -/
inductive Chunked.Decodes : Chunked → List UInt8 → List UInt8 → Prop
  | idle {lenBuffer : List UInt8} (hlen : lenBuffer.length = 11) :
    Decodes ⟨0, 0, .lenghHeader, lenBuffer⟩ [] []
  | header {lenBuffer got rest : List UInt8} (hlen : lenBuffer.length = 11) (c : Chunk) (cs : List Chunk)
      (hgot : lenBuffer.take got.length = got) (hheader : c.header = got ++ rest) (hrest : rest ≠ []) :
    Decodes ⟨0, got.length, .lenghHeader, lenBuffer⟩ (rest ++ c.body ++ cs.flatMap Chunk.encode)
      (c.data ++ cs.flatMap Chunk.data)
  | data {lenBuffer left : List UInt8} {pos : ℕ} (hlen : lenBuffer.length = 11) (cs : List Chunk)
      (hleft : left ≠ []) :
    Decodes ⟨left.length, pos, .data, lenBuffer⟩ (left ++ [13, 10] ++ cs.flatMap Chunk.encode)
      (left ++ cs.flatMap Chunk.data)
  | footer {lenBuffer : List UInt8} {pos : ℕ} (hlen : lenBuffer.length = 11) (cs : List Chunk)
      (hpos : pos < 2) :
    Decodes ⟨0, pos, .footer, lenBuffer⟩ ([13, 10].drop pos ++ cs.flatMap Chunk.encode)
      (cs.flatMap Chunk.data)

theorem Chunked.Decodes.start {lenBuffer : List UInt8} (hlen : lenBuffer.length = 11) (cs : List Chunk) :
    Chunked.Decodes ⟨0, 0, .lenghHeader, lenBuffer⟩ (cs.flatMap Chunk.encode) (cs.flatMap Chunk.data) := by
  cases cs with
  | nil => exact .idle hlen
  | cons c cs =>
    have htake : lenBuffer.take ([] : List UInt8).length = [] := rfl
    have hne : c.header ≠ [] := List.append_ne_nil_of_right_ne_nil _ (List.cons_ne_nil _ _)
    rw [List.flatMap_cons, List.flatMap_cons, Chunk.encode]
    exact .header hlen c cs htake rfl hne

/-! ### Numbers -/

theorem strtoulDigits_append (hdigits : ∀ c ∈ digits, (hexValue c).isSome) (acc : ℕ) (rest : List UInt8) :
    strtoulDigits acc (digits ++ 13 :: rest) = strtoulDigits acc digits := by
  induction digits generalizing acc with
  | nil => rfl
  | cons c digits ih =>
    obtain ⟨d, hd⟩ := Option.isSome_iff_exists.mp (hdigits c List.mem_cons_self)
    simp only [List.cons_append, strtoulDigits, hd]
    exact ih (fun c hc => hdigits c (List.mem_cons_of_mem _ hc)) _

/-- A digit is no blank, no sign, and no `x`. -/
theorem hexValue_isSome {c : UInt8} (h : (hexValue c).isSome) :
    ¬(c = 32 ∨ (9 ≤ c ∧ c ≤ 13)) ∧ c ≠ 45 ∧ c ≠ 43 ∧ c ≠ 120 ∧ c ≠ 88 ∧ c ≠ 10 := by
  have hlt : 13 < c.toNat := by
    unfold hexValue at h
    simp only [UInt8.le_iff_toNat_le, UInt8.reduceToNat] at h
    split_ifs at h <;> first | omega | exact absurd h (by decide)
  refine ⟨?_, ?_, ?_, ?_, ?_, ?_⟩
  · rintro (rfl | ⟨-, hle⟩)
    · exact absurd h (by decide)
    · rw [UInt8.le_iff_toNat_le] at hle
      exact absurd hlt (not_lt.mpr hle)
  all_goals
    rintro rfl
    exact absurd h (by decide)

theorem strtoulPrefixed_digits (hdigits : ∀ c ∈ digits, (hexValue c).isSome) (rest : List UInt8) :
    strtoulPrefixed (digits ++ 13 :: rest) = strtoulDigits 0 digits := by
  rw [← strtoulDigits_append hdigits 0 rest]
  unfold strtoulPrefixed
  split
  · rename_i x c s heq
    have hx : ¬(x = 120 ∨ x = 88) := by
      match digits, hdigits, heq with
      | [], _, heq => exact absurd (List.cons.inj heq).1 (by decide)
      | [_], _, heq =>
        obtain rfl : 13 = x := (List.cons.inj (List.cons.inj heq).2).1
        decide
      | _ :: y :: _, hdigits, heq =>
        obtain rfl : y = x := (List.cons.inj (List.cons.inj heq).2).1
        have hy := hexValue_isSome (hdigits y (List.mem_cons_of_mem _ List.mem_cons_self))
        exact not_or.mpr ⟨hy.2.2.2.1, hy.2.2.2.2.1⟩
    rw [if_neg fun h => hx h.1, heq]
  · rfl

/-- The number in front of the end of the line. -/
theorem strtoul_digits (hne : digits ≠ []) (hdigits : ∀ c ∈ digits, (hexValue c).isSome)
    (rest : List UInt8) :
    strtoul (digits ++ 13 :: rest) = strtoulDigits 0 digits := by
  rw [← strtoulPrefixed_digits hdigits rest]
  cases digits with
  | nil => exact absurd rfl hne
  | cons c digits =>
    obtain ⟨hblank, hminus, hplus, -⟩ := hexValue_isSome (hdigits c List.mem_cons_self)
    unfold strtoul
    rw [List.cons_append, List.dropWhile_cons_of_neg (by simpa using hblank)]
    split
    · rename_i s heq
      exact absurd (List.cons.inj heq).1 hminus
    · rename_i s heq
      exact absurd (List.cons.inj heq).1 hplus
    · rfl

/-! ### The length -/

/-- A byte behind the ones that have been read. -/
theorem take_set_length {lenBuffer got : List UInt8} (hgot : lenBuffer.take got.length = got)
    (hlt : got.length < lenBuffer.length) (c : UInt8) :
    (lenBuffer.set got.length c).take (got.length + 1) = got ++ [c] := by
  rw [List.take_succ_eq_append_getElem (by rwa [List.length_set]), List.getElem_set_self,
    List.take_set_of_le le_rfl, hgot]

theorem chunkedLenLoop_newLine (rounds : ℕ) (ctx : Chunked) (net : List (List UInt8)) :
    chunkedLenLoop rounds true ctx net = (true, ctx, net) := by
  cases rounds with
  | zero => rfl
  | succ rounds => exact if_neg fun h => absurd h.2 (by decide)

/-- One round of the loop: there is nothing to read, or there is a byte. -/
theorem chunkedLenLoop_succ {got : List UInt8} (hlength : got.length < 10) (rounds : ℕ)
    (lenBuffer : List UInt8) (net : List (List UInt8)) :
    (∃ net', net'.flatten = net.flatten ∧ netSize net' ≤ netSize net - 1 ∧
      chunkedLenLoop (rounds + 1) false ⟨0, got.length, .lenghHeader, lenBuffer⟩ net =
        (false, ⟨0, got.length, .lenghHeader, lenBuffer⟩, net')) ∨
    ∃ c net', net.flatten = c :: net'.flatten ∧ netSize net' ≤ netSize net - 1 ∧
      chunkedLenLoop (rounds + 1) false ⟨0, got.length, .lenghHeader, lenBuffer⟩ net =
        chunkedLenLoop rounds (c = 10) ⟨0, (got ++ [c]).length, .lenghHeader, lenBuffer.set got.length c⟩
          net' := by
  have hone : IsBufferSize 1 := ⟨by decide, by decide⟩
  rw [chunkedLenLoop, if_pos ⟨hlength, rfl⟩]
  obtain ⟨net', hread, hflatten, hsize⟩ | ⟨data, net', hread, hne, hle, hflatten, hsize⟩ :=
    bioRead_cases hone net
  · rw [hread]
    exact .inl ⟨net', hflatten, hsize, rfl⟩
  · match data, hne, hle with
    | [c], _, _ =>
      rw [hread]
      refine .inr ⟨c, net', hflatten, hsize, ?_⟩
      rw [List.length_append]
      rfl

/-- The loop reads a part of the line, or all of it. -/
theorem chunkedLenLoop_cases {front tail lenBuffer got : List UInt8} {rounds : ℕ} (hfront : 10 ∉ front)
    (hlen : lenBuffer.length = 11) (hgot : lenBuffer.take got.length = got)
    (hlength : got.length + front.length < 10) (hrounds : front.length < rounds)
    (hnet : net.flatten = front ++ 10 :: tail) :
    ∃ more lenBuffer' net', lenBuffer'.length = 11 ∧ netSize net' ≤ netSize net - 1 ∧
      lenBuffer'.take (got ++ more).length = got ++ more ∧
      ((more = front ++ [10] ∧ net'.flatten = tail ∧ chunkedLenLoop rounds false
          ⟨0, got.length, .lenghHeader, lenBuffer⟩ net =
        (true, ⟨0, (got ++ more).length, .lenghHeader, lenBuffer'⟩, net')) ∨
      ∃ front', front = more ++ front' ∧ net'.flatten = front' ++ 10 :: tail ∧ chunkedLenLoop rounds false
          ⟨0, got.length, .lenghHeader, lenBuffer⟩ net =
        (false, ⟨0, (got ++ more).length, .lenghHeader, lenBuffer'⟩, net')) := by
  induction front generalizing rounds net lenBuffer got with
  | nil =>
    obtain ⟨rounds, rfl⟩ : ∃ k, rounds = k + 1 := ⟨rounds - 1, by rw [List.length_nil] at hrounds; omega⟩
    rw [List.length_nil, add_zero] at hlength
    obtain ⟨net', hflatten, hsize, hloop⟩ | ⟨c, net', hflatten, hsize, hloop⟩ :=
      chunkedLenLoop_succ hlength rounds lenBuffer net
    · refine ⟨[], lenBuffer, net', hlen, hsize, ?_, .inr ⟨[], rfl, hflatten.trans hnet, ?_⟩⟩
      · rwa [List.append_nil]
      · rwa [List.append_nil]
    · obtain ⟨rfl, htail⟩ := List.cons.inj (hnet.symm.trans hflatten)
      refine ⟨[10], lenBuffer.set got.length 10, net', (List.length_set).trans hlen, hsize, ?_,
        .inl ⟨rfl, htail.symm, hloop.trans (chunkedLenLoop_newLine _ _ _)⟩⟩
      rw [List.length_append]
      exact take_set_length hgot (by omega) 10
  | cons c front ih =>
    rw [List.length_cons] at hlength hrounds
    obtain ⟨rounds, rfl⟩ : ∃ k, rounds = k + 1 := ⟨rounds - 1, by omega⟩
    obtain ⟨net', hflatten, hsize, hloop⟩ | ⟨d, net', hflatten, hsize, hloop⟩ :=
      chunkedLenLoop_succ (by omega : got.length < 10) rounds lenBuffer net
    · refine ⟨[], lenBuffer, net', hlen, hsize, ?_, .inr ⟨c :: front, rfl, hflatten.trans hnet, ?_⟩⟩
      · rwa [List.append_nil]
      · rwa [List.append_nil]
    · obtain ⟨rfl, hrest⟩ := List.cons.inj (hnet.symm.trans hflatten)
      have hc : decide (c = 10) = false := decide_eq_false fun h => hfront (h ▸ List.mem_cons_self)
      have htake : (lenBuffer.set got.length c).take (got ++ [c]).length = got ++ [c] := by
        rw [List.length_append]
        exact take_set_length hgot (by omega) c
      rw [hc] at hloop
      obtain ⟨more, lenBuffer', net'', hlen', hsize', htake', hcases⟩ :=
        ih (fun h => hfront (List.mem_cons_of_mem _ h)) ((List.length_set).trans hlen) htake
          (by rw [List.length_append, List.length_singleton]; omega)
          (by omega : front.length < rounds) hrest.symm
      rw [List.append_assoc, List.singleton_append] at htake' hcases
      refine ⟨c :: more, lenBuffer', net'', hlen', by omega, htake', ?_⟩
      obtain ⟨rfl, htail, hloop'⟩ | ⟨front', rfl, hnet', hloop'⟩ := hcases
      · exact .inl ⟨rfl, htail, hloop.trans hloop'⟩
      · exact .inr ⟨front', rfl, hnet', hloop.trans hloop'⟩

/-- What is left of a line that has been read in part. -/
theorem Chunk.exists_front (c : Chunk) {got : List UInt8} (hheader : c.header = got ++ rest)
    (hrest : rest ≠ []) :
    ∃ front, rest = front ++ [10] ∧ 10 ∉ front ∧ got.length + front.length < 10 := by
  obtain ⟨front, last, rfl⟩ : ∃ front last, rest = front ++ [last] :=
    ⟨rest.dropLast, rest.getLast hrest, (List.dropLast_append_getLast hrest).symm⟩
  have hline : (c.digits ++ [13]) ++ [10] = (got ++ front) ++ [last] := by
    rw [List.append_assoc, List.append_assoc, ← hheader]
    rfl
  obtain ⟨hfront, hlast⟩ := List.append_inj' hline rfl
  obtain rfl := (List.cons.inj hlast).1
  refine ⟨front, rfl, fun hmem => ?_, ?_⟩
  · have hten : 10 ∈ c.digits ++ [13] := hfront ▸ List.mem_append_right got hmem
    obtain hdigit | htwo := List.mem_append.mp hten
    · exact absurd rfl (hexValue_isSome (c.hex 10 hdigit)).2.2.2.2.2
    · exact absurd (List.mem_singleton.mp htwo) (by decide)
  · have hlength := congrArg List.length hfront
    have hdigits := c.length_digits
    rw [List.length_append, List.length_append, List.length_singleton] at hlength
    omega

theorem Chunk.startData (c : Chunk) (cs : List Chunk) {lenBuffer : List UInt8}
    (hlen : lenBuffer.length = 11)
    (htake : lenBuffer.take c.header.length = c.header) :
    (chunkedStartData ⟨0, c.header.length, .lenghHeader, lenBuffer⟩).Decodes
      (c.body ++ cs.flatMap Chunk.encode) (c.data ++ cs.flatMap Chunk.data) := by
  have hlength : c.header.length < 11 := by
    have hdigits := c.length_digits
    rw [Chunk.header, List.length_append]
    exact Nat.lt_succ_of_le (Nat.add_le_add_right hdigits 2)
  have hbuffer : lenBuffer.set c.header.length 0 =
      c.digits ++ 13 :: 10 :: 0 :: lenBuffer.drop (c.header.length + 1) := by
    rw [List.set_eq_take_append_cons_drop, if_pos (by omega), htake, Chunk.header, List.append_assoc]
    rfl
  have hvalue : strtoul (lenBuffer.set c.header.length 0) = c.data.length := by
    rw [hbuffer, strtoul_digits c.digits_ne c.hex, c.value]
  have hne : c.data.length ≠ 0 := fun h => c.data_ne (List.length_eq_zero_iff.mp h)
  unfold chunkedStartData
  dsimp only
  rw [hvalue, if_neg hne]
  exact .data ((List.length_set).trans hlen) cs c.data_ne

/-! ### Data and footers -/

theorem Chunked.Decodes.takeData {lenBuffer : List UInt8} (pos : ℕ) (hlen : lenBuffer.length = 11)
    (cs : List Chunk) (data left : List UInt8) :
    (chunkedTakeData data.length ⟨(data ++ left).length, pos, .data, lenBuffer⟩).Decodes
      (left ++ [13, 10] ++ cs.flatMap Chunk.encode) (left ++ cs.flatMap Chunk.data) := by
  unfold chunkedTakeData
  dsimp only
  rw [List.length_append, Nat.add_sub_cancel_left]
  by_cases hleft : left.length = 0
  · rw [if_pos hleft]
    obtain rfl := List.length_eq_zero_iff.mp hleft
    exact .footer hlen cs (by decide)
  · rw [if_neg hleft]
    exact .data hlen cs fun h => hleft (List.length_eq_zero_iff.mpr h)

theorem Chunked.Decodes.takeFooter {lenBuffer : List UInt8} {pos : ℕ} (hlen : lenBuffer.length = 11)
    (cs : List Chunk) (hn : pos + n ≤ 2) :
    (chunkedTakeFooter n ⟨0, pos, .footer, lenBuffer⟩).Decodes
      ([13, 10].drop (pos + n) ++ cs.flatMap Chunk.encode) (cs.flatMap Chunk.data) := by
  unfold chunkedTakeFooter
  dsimp only
  by_cases hend : pos + n = 2
  · rw [if_pos hend, hend]
    exact .start hlen cs
  · rw [if_neg hend]
    exact .footer hlen cs (by omega)

/-! ### Reads -/

/-- The loop returns data that is next, and leaves the rest. -/
theorem chunkedReadLoop_spec {rounds : ℕ} (hs : ctx.Decodes net.flatten todo) (hsize : IsBufferSize size)
    (hrounds : net.flatten.length < rounds) :
    ∃ data todo' ctx' net', chunkedReadLoop rounds size buffer ctx net =
        (effective (buffer ++ data) none, ctx', net') ∧ data.length ≤ size ∧ todo = data ++ todo' ∧
      ctx'.Decodes net'.flatten todo' ∧ netSize net' ≤ netSize net - 1 := by
  induction rounds generalizing size buffer ctx net todo with
  | zero => exact absurd hrounds (Nat.not_lt_zero _)
  | succ rounds ih =>
    generalize hnet : net.flatten = stream at hs hrounds
    rw [chunkedReadLoop]
    cases hs with
    | @idle lenBuffer hlen =>
      dsimp only
      obtain ⟨net', hflatten, hless, hloop⟩ | ⟨c, net', hflatten, -, -⟩ :=
        chunkedLenLoop_succ (by decide : ([] : List UInt8).length < 10) 9 lenBuffer net
      · rw [List.length_nil] at hloop
        rw [if_pos rfl, hloop]
        refine ⟨[], [], _, net', by rw [List.append_nil], Nat.zero_le _, rfl, ?_, hless⟩
        rw [hflatten, hnet]
        exact .idle hlen
      · exact absurd (hnet.symm.trans hflatten) (List.cons_ne_nil _ _).symm
    | @header lenBuffer got rest hlen c cs hgot hheader hrest =>
      obtain ⟨front, rfl, hfront, hlength⟩ := c.exists_front hheader hrest
      have hstream : net.flatten = front ++ 10 :: (c.body ++ cs.flatMap Chunk.encode) := by
        rw [hnet, List.append_assoc, List.append_assoc, List.singleton_append]
      obtain ⟨more, lenBuffer', net', hlen', hless, htake, hcases⟩ :=
        chunkedLenLoop_cases hfront hlen hgot hlength (by omega : front.length < 10) hstream
      dsimp only
      rw [if_pos rfl]
      obtain ⟨rfl, htail, hloop⟩ | ⟨front', rfl, hnet', hloop⟩ := hcases
      · rw [← hheader] at htake hloop
        have hstart := c.startData cs hlen' htake
        rw [← htail] at hstart
        have hshort : net'.flatten.length < rounds := by
          rw [← hnet, hstream, ← htail, List.length_append, List.length_cons] at hrounds
          omega
        obtain ⟨data, todo', ctx', net'', hread, hle, heq, hs', hless'⟩ := ih hstart hsize hshort
        rw [hloop]
        exact ⟨data, todo', ctx', net'', hread, hle, heq, hs', by omega⟩
      · rw [hloop]
        refine ⟨[], c.data ++ cs.flatMap Chunk.data, _, net', by
          rw [List.append_nil], Nat.zero_le _, rfl, ?_, hless⟩
        have hrest' := Chunked.Decodes.header hlen' c cs htake
          (by rw [hheader, List.append_assoc, List.append_assoc])
          (List.append_ne_nil_of_right_ne_nil front' (List.cons_ne_nil 10 []))
        rw [hnet']
        simpa only [List.append_assoc, List.cons_append, List.nil_append] using hrest'
    | @data lenBuffer left pos hlen cs hleft =>
      have hpos := List.length_pos_iff.mpr hleft
      have hmin : IsBufferSize (if size > left.length then left.length else size) := by
        obtain ⟨hsize, hsize'⟩ := hsize
        split
        · exact ⟨hpos, by omega⟩
        · exact ⟨hsize, hsize'⟩
      dsimp only
      obtain ⟨net', hread, hflatten, hless⟩ | ⟨data, net', hread, hne, hle, hflatten, hless⟩ :=
        bioRead_cases hmin net
      · rw [hread]
        refine ⟨[], _, _, net', by rw [List.append_nil], Nat.zero_le _, rfl, ?_, hless⟩
        rw [hflatten, hnet]
        exact .data hlen cs hleft
      · have hle' : data.length ≤ left.length ∧ data.length ≤ size := by
          split at hle <;> omega
        obtain ⟨left, rfl⟩ : data <+: left := by
          refine List.prefix_of_prefix_length_le ⟨net'.flatten, hflatten.symm⟩ ?_ hle'.1
          rw [hnet, List.append_assoc]
          exact List.prefix_append _ _
        have hrest : net'.flatten = left ++ [13, 10] ++ cs.flatMap Chunk.encode := by
          rw [hnet, List.append_assoc, List.append_assoc] at hflatten
          rw [← List.append_cancel_left hflatten, List.append_assoc]
        have htaken := Chunked.Decodes.takeData pos hlen cs data left
        rw [← hrest] at htaken
        rw [hread]
        match data, hne with
        | byte :: data, hne =>
          dsimp only
          by_cases hfull : (byte :: data).length = size
          · rw [if_pos hfull]
            refine ⟨byte :: data, left ++ cs.flatMap Chunk.data, _, net', ?_, hle'.2, ?_, htaken, hless⟩
            · rw [effective_append hne]
            · rw [List.append_assoc]
          · rw [if_neg hfull]
            have hshort : net'.flatten.length < rounds := by
              rw [← hnet, hflatten, List.length_append, List.length_cons] at hrounds
              omega
            obtain ⟨data', todo', ctx', net'', hread', hle'', heq, hs', hless'⟩ :=
              ih htaken (show IsBufferSize (size - (byte :: data).length) from
                ⟨by omega, by have := hsize.2; omega⟩) hshort
            refine ⟨byte :: data ++ data', todo', ctx', net'', ?_, ?_, ?_, hs', by omega⟩
            · rw [hread', List.append_assoc]
            · rw [List.length_append]
              omega
            · rw [List.append_assoc, heq, List.append_assoc]
    | @footer lenBuffer pos hlen cs hpos =>
      dsimp only
      rw [if_pos ⟨rfl, hpos⟩]
      obtain ⟨net', hread, hflatten, hless⟩ | ⟨data, net', hread, hne, hle, hflatten, hless⟩ :=
        bioRead_cases (show IsBufferSize (2 - pos) from ⟨by omega, by unfold intMax; omega⟩) net
      · rw [hread]
        refine ⟨[], _, _, net', by rw [List.append_nil], Nat.zero_le _, rfl, ?_, hless⟩
        rw [hflatten, hnet]
        exact .footer hlen cs hpos
      · have hfooter : (([13, 10] : List UInt8).drop pos).length = 2 - pos := List.length_drop
        obtain ⟨left, hleft⟩ : data <+: ([13, 10] : List UInt8).drop pos := by
          refine List.prefix_of_prefix_length_le ⟨net'.flatten, hflatten.symm⟩ ?_ (by omega)
          rw [hnet]
          exact List.prefix_append _ _
        have hdrop : ([13, 10] : List UInt8).drop (pos + data.length) = left := by
          rw [← List.drop_drop, ← hleft, List.drop_left]
        have htaken := Chunked.Decodes.takeFooter hlen cs (by omega : pos + data.length ≤ 2)
        have hrest : net'.flatten = left ++ cs.flatMap Chunk.encode := by
          rw [hnet, ← hleft, List.append_assoc] at hflatten
          exact (List.append_cancel_left hflatten).symm
        rw [hdrop, ← hrest] at htaken
        have hshort : net'.flatten.length < rounds := by
          have hdata := List.length_pos_iff.mpr hne
          rw [← hnet, hflatten, List.length_append] at hrounds
          omega
        obtain ⟨data', todo', ctx', net'', hread', hle', heq, hs', hless'⟩ := ih htaken hsize hshort
        rw [hread]
        exact ⟨data', todo', ctx', net'', hread', hle', heq, hs', by omega⟩

/-- A read takes the data that it returns off the data that is still to be returned. -/
theorem rdgChunckedRead_delivers :
    Source.Delivers (fun n _ => IsBufferSize n) rdgChunckedRead ReadStatus.data ReadStatus.Fine
      (fun s : ChunkedSource => s.1.Decodes s.2.flatten) (fun s => netSize s.2) where
  fine {s todo n} hs hn := by
    obtain ⟨data, todo', ctx', net', hread, -, -, -, -⟩ := chunkedReadLoop_spec hs hn (Nat.lt_succ_self _)
    rw [rdgChunckedRead, hread]
    exact effective_fine _ _
  length_le {s todo n} hs hn := by
    obtain ⟨data, todo', ctx', net', hread, hle, -, -, -⟩ := chunkedReadLoop_spec hs hn (Nat.lt_succ_self _)
    rw [rdgChunckedRead, hread, List.nil_append, data_effective]
    exact hle
  step {s todo n} hs hn := by
    obtain ⟨data, todo', ctx', net', hread, -, heq, hs', -⟩ := chunkedReadLoop_spec hs hn
      (Nat.lt_succ_self _)
    rw [rdgChunckedRead, hread, List.nil_append, data_effective]
    exact ⟨todo', heq, hs'⟩
  fuel_le {s todo n} hs hn := by
    obtain ⟨data, todo', ctx', net', hread, -, -, -, hless⟩ := chunkedReadLoop_spec hs hn
      (Nat.lt_succ_self _)
    rw [rdgChunckedRead, hread]
    exact hless
  done {s todo} hs hfuel := by
    obtain ⟨ctx, net⟩ := s
    obtain rfl := netSize_eq_zero hfuel
    generalize hnet : ([] : List (List UInt8)).flatten = stream at hs
    cases hs with
    | idle hlen => rfl
    | header hlen c cs hgot hheader hrest =>
      obtain ⟨-, h⟩ := List.append_eq_nil_iff.mp (List.append_eq_nil_iff.mp hnet.symm).1
      exact absurd (List.append_eq_nil_iff.mp h).2 (List.cons_ne_nil _ _)
    | data hlen cs hleft =>
      exact absurd (List.append_eq_nil_iff.mp (List.append_eq_nil_iff.mp hnet.symm).1).1 hleft
    | footer hlen cs hpos =>
      have hdrop := congrArg List.length (List.append_eq_nil_iff.mp hnet.symm).1
      rw [List.length_drop, List.length_nil] at hdrop
      exact absurd hdrop (by simp only [List.length_cons, List.length_nil]; omega)

/-! ### Written chunks -/

theorem hexValue_hexDigit {d : ℕ} (hd : d < 16) : hexValue (hexDigit d) = some d := by
  interval_cases d <;> rfl

theorem strtoulDigits_snoc {c : UInt8} {d : ℕ} (hdigits : ∀ c ∈ digits, (hexValue c).isSome)
    (hc : hexValue c = some d) (acc : ℕ) :
    strtoulDigits acc (digits ++ [c]) = strtoulDigits acc digits * 16 + d := by
  induction digits generalizing acc with
  | nil => simp only [List.nil_append, strtoulDigits, hc]
  | cons e digits ih =>
    obtain ⟨v, hv⟩ := Option.isSome_iff_exists.mp (hdigits e List.mem_cons_self)
    simp only [List.cons_append, strtoulDigits, hv]
    exact ih (fun c hc => hdigits c (List.mem_cons_of_mem _ hc)) _

theorem printHex_spec (n : ℕ) : (∀ c ∈ printHex n, (hexValue c).isSome) ∧ strtoulDigits 0
    (printHex n) = n := by
  fun_induction printHex n with
  | case1 n hn =>
    have hdigit := hexValue_hexDigit hn
    refine ⟨List.forall_mem_singleton.mpr (Option.isSome_of_eq_some hdigit), ?_⟩
    simp only [strtoulDigits, hdigit, Nat.zero_mul, Nat.zero_add]
  | case2 n hn ih =>
    have hdigit := hexValue_hexDigit (Nat.mod_lt n (by decide : 16 > 0))
    refine ⟨List.forall_mem_append.mpr
      ⟨ih.1, List.forall_mem_singleton.mpr (Option.isSome_of_eq_some hdigit)⟩, ?_⟩
    rw [strtoulDigits_snoc ih.1 hdigit, ih.2]
    omega

theorem printHex_ne_nil (n : ℕ) : printHex n ≠ [] := by
  rw [printHex]
  split
  · exact List.cons_ne_nil _ _
  · exact List.append_ne_nil_of_right_ne_nil _ (List.cons_ne_nil _ _)

theorem length_printHex_le {k : ℕ} (hn : n < 16 ^ (k + 1)) : (printHex n).length ≤ k + 1 := by
  induction k generalizing n with
  | zero =>
    rw [printHex, if_pos (by simpa using hn)]
    rfl
  | succ k ih =>
    rw [printHex]
    split
    · simp
    · have hdiv : n / 16 < 16 ^ (k + 1) := by
        rw [pow_succ] at hn
        exact Nat.div_lt_of_lt_mul (by omega)
      have hle := ih hdiv
      rw [List.length_append, List.length_singleton]
      omega

theorem exists_dataChunk (hpos : 1 ≤ data.length) (hle : data.length ≤ 65535) :
    ∃ c : Chunk, rdgWriteChunkedDataPacket data = some c.encode ∧
      c.data = dataPacketHeader data.length ++ data := by
  have hspec := printHex_spec (data.length + 10)
  have hlength := length_printHex_le (n := data.length + 10) (k := 7) (by omega)
  have hheader : (dataPacketHeader data.length).length = 10 := rfl
  refine ⟨⟨printHex (data.length + 10), dataPacketHeader data.length ++ data, printHex_ne_nil _, hlength,
    hspec.1, ?_, ?_⟩, ?_, rfl⟩
  · rw [hspec.2, List.length_append, hheader]
    omega
  · exact List.append_ne_nil_of_left_ne_nil (List.cons_ne_nil _ _) _
  · rw [rdgWriteChunkedDataPacket, if_neg (by omega), if_neg (by omega)]
    simp only [Chunk.encode, Chunk.header, Chunk.body, List.append_assoc]

/-- Whatever the pieces are in which the chunks arrive, the reads return their data, and no assertion
fails.  The size of a buffer is at most `INT_MAX`, as the read returns the number of its bytes as an `int`. -/
theorem chunked_read {cs : List Chunk} {lenBuffer : List UInt8} {sizes : List ℕ}
    (hlen : lenBuffer.length = 11) (hnet : net.flatten = cs.flatMap Chunk.encode)
    (hsizes : ∀ size ∈ sizes, IsBufferSize size) :
    (∀ r ∈ (Source.reads rdgChunckedRead sizes (⟨0, 0, .lenghHeader, lenBuffer⟩, net)).1, r.Fine) ∧
      (Source.reads rdgChunckedRead sizes (⟨0, 0, .lenghHeader, lenBuffer⟩, net)).1.flatMap
        ReadStatus.data <+:
        cs.flatMap Chunk.data ∧
      (netSize net ≤ sizes.length →
        (Source.reads rdgChunckedRead sizes (⟨0, 0, .lenghHeader, lenBuffer⟩, net)).1.flatMap
          ReadStatus.data =
          cs.flatMap Chunk.data) ∧
      ∀ buf : List UInt8, 1 ≤ buf.length → buf.length ≤ 65535 → ∃ c : Chunk,
        rdgWriteChunkedDataPacket buf = some c.encode ∧ c.data = dataPacketHeader buf.length ++ buf := by
  have hstart : Chunked.Decodes ⟨0, 0, .lenghHeader, lenBuffer⟩ net.flatten (cs.flatMap Chunk.data) :=
    hnet ▸ .start hlen cs
  obtain ⟨hfine, todo, heq, -, hall⟩ :=
    rdgChunckedRead_delivers.reads (s := (⟨0, 0, .lenghHeader, lenBuffer⟩, net)) hstart
      (Source.allMeet_of_forall hsizes)
  refine ⟨hfine, ⟨todo, heq.symm⟩, fun hle => ?_, fun buf hpos hle => exists_dataChunk hpos hle⟩
  rw [heq, hall hle, List.append_nil]

theorem chunked_read_example :
    (Source.reads rdgChunckedRead [1, 5, 5, 2, 5, 5, 5, 5, 5, 5, 5, 5, 5]
      (Chunked.zero, [[51, 13], [], [10, 97], [98, 99, 13], [10]])).1.flatMap ReadStatus.data =
        [97, 98, 99] :=
  (chunked_read List.length_replicate
    (show [[51, 13], [], [10, 97], [98, 99, 13], [10]].flatten = [Chunk.mk [51] [97, 98, 99] (by decide)
      (by decide +kernel) (by decide +kernel) (by decide) (by decide)].flatMap Chunk.encode
        from rfl) (by decide)).2.2.1 (by decide)

end FreeRDP.Gateway
