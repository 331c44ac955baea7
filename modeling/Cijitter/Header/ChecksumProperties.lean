import Cijitter.Header.Checksum

/-! The checksum functions against RFC 1071. The unrolled loop adds the same
words as the plain one, so `Checksum` and `ChecksumOld` agree on every slice.
Both add the words of a slice to a 32-bit sum, which a slice of fewer than
2^17 bytes does not overflow; folded, that sum is the one's complement sum of
the words. `ChecksumVVWithOffset` folds after each view, which one's
complement addition allows, and passes on whether the bytes so far were odd
in number, so a view may end within a word. -/

set_option autoImplicit false

namespace Cijitter.Header

open TcpipBuffer (VectorisedView)

/-! ### The unrolled loop adds the same words -/

theorem sumWords_append :
    ∀ {xs : List UInt8}, xs.length % 2 = 0 → ∀ (v : UInt32) (ys : List UInt8),
      sumWords v (xs ++ ys) = sumWords (sumWords v xs) ys
  | [], _, _, _ => rfl
  | [_], odd, _, _ => by simp at odd
  | hi :: lo :: xs, even, v, ys => by
    rw [List.cons_append, List.cons_append, sumWords, sumWords]
    exact sumWords_append (by simp only [List.length_cons] at even; omega) _ ys

theorem sumWords_take_add (v : UInt32) (buf : List UInt8) {a : Nat} (b : Nat) (even : a % 2 = 0)
    (room : a ≤ buf.length) :
    sumWords v (buf.take (a + b)) = sumWords (sumWords v (buf.take a)) ((buf.drop a).take b) := by
  rw [List.take_add, sumWords_append (by rw [List.length_take, Nat.min_eq_left room]; exact even)]

section Unrolled

variable {v₀ : UInt32} {buf₀ : List UInt8} {l₀ : Nat}

/-- What the blocks of the unrolled loop keep, from a sum `v₀` and a slice
`buf₀` of which `l₀` bytes make whole words: the words of the bytes taken so
far are added to `v₀`, those bytes are even in number, and the slice left
starts after them. -/
structure Consumed (v₀ : UInt32) (buf₀ : List UInt8) (l₀ : Nat) (state : UInt32 × List UInt8 × Nat) : Prop where
  left_le : state.2.2 ≤ l₀
  even : (l₀ - state.2.2) % 2 = 0
  sum : state.1 = sumWords v₀ (buf₀.take (l₀ - state.2.2))
  rest : state.2.1 = buf₀.drop (l₀ - state.2.2)

theorem Consumed.start (v₀ : UInt32) (buf₀ : List UInt8) (l₀ : Nat) : Consumed v₀ buf₀ l₀ (v₀, buf₀, l₀) :=
  ⟨Nat.le_refl _, by simp, by simp [sumWords], by simp⟩

theorem Consumed.block {state : UInt32 × List UInt8 × Nat} (holds : Consumed v₀ buf₀ l₀ state)
    (room : l₀ ≤ buf₀.length) (size : Nat) (evenSize : size % 2 = 0) :
    Consumed v₀ buf₀ l₀ (sumBlock size state.1 state.2.1 state.2.2) := by
  obtain ⟨v, buf, l⟩ := state
  obtain ⟨leftLe, even, sum, rest⟩ := holds
  unfold sumBlock
  dsimp only at leftLe even sum rest ⊢
  split
  · rename_i fits
    have taken : l₀ - (l - size) = l₀ - l + size := by omega
    refine ⟨by dsimp only; omega, by dsimp only; omega, ?_, ?_⟩
    · dsimp only
      rw [taken, sumWords_take_add _ _ _ even (by omega), sum, rest]
    · dsimp only
      rw [taken, rest, List.drop_drop]
  · exact ⟨leftLe, even, sum, rest⟩

theorem sumBlock_left_lt (size : Nat) (v : UInt32) (buf : List UInt8) {l : Nat} (below : l < 2 * size) :
    (sumBlock size v buf l).2.2 < size := by
  unfold sumBlock
  split <;> dsimp only <;> omega

theorem Consumed.blocks64 (room : l₀ ≤ buf₀.length) (v : UInt32) (buf : List UInt8) (l : Nat)
    (holds : Consumed v₀ buf₀ l₀ (v, buf, l)) :
    Consumed v₀ buf₀ l₀ (Cijitter.Header.sumBlocks64 v buf l) ∧ (Cijitter.Header.sumBlocks64 v buf l).2.2 < 64 := by
  fun_induction Cijitter.Header.sumBlocks64 v buf l with
  | case1 v buf l fits ih =>
    -- one block of the loop is the block of 64 bytes `sumBlock` adds
    have block : sumBlock 64 v buf l = (sumWords v (buf.take 64), buf.drop 64, l - 64) := by
      rw [sumBlock, if_pos fits]
    exact ih (block ▸ holds.block room 64 (by decide))
  | case2 v buf l below => exact ⟨holds, by dsimp only; omega⟩

end Unrolled

theorem and_one_bne_zero (l : Nat) : (l &&& 1 != 0) = true ↔ l % 2 = 1 := by
  rw [Nat.and_one_is_mod, bne_iff_ne]
  omega

theorem checksumPrologue_words (buf : List UInt8) (odd : Bool) (initial : UInt32) :
    (checksumPrologue buf odd initial).2.2.1 ≤ (checksumPrologue buf odd initial).2.1.length ∧
      (checksumPrologue buf odd initial).2.2.1 % 2 = 0 := by
  unfold checksumPrologue addOddEnd
  dsimp only
  split <;> rename_i parity <;> rw [and_one_bne_zero] at parity <;> dsimp only <;> omega

theorem unrolledCalculateChecksum_eq (buf : List UInt8) (odd : Bool) (initial : UInt32) :
    unrolledCalculateChecksum buf odd initial = calculateChecksum buf odd initial := by
  have prologue := checksumPrologue_words buf odd initial
  unfold unrolledCalculateChecksum calculateChecksum
  generalize checksumPrologue buf odd initial = p at prologue ⊢
  obtain ⟨v, rest, l, odd'⟩ := p
  obtain ⟨room, evenAll⟩ := prologue
  dsimp only at room evenAll ⊢
  -- each block keeps what the blocks took in whole words, and leaves less
  obtain ⟨taken64, below64⟩ := Consumed.blocks64 room v rest l (Consumed.start v rest l)
  generalize sumBlocks64 v rest l = s64 at taken64 below64 ⊢
  obtain ⟨v64, buf64, l64⟩ := s64
  have taken32 := taken64.block room 32 (by decide)
  have below32 := sumBlock_left_lt 32 v64 buf64 (by dsimp only at below64; omega)
  generalize sumBlock 32 v64 buf64 l64 = s32 at taken32 below32 ⊢
  obtain ⟨v32, buf32, l32⟩ := s32
  have taken16 := taken32.block room 16 (by decide)
  have below16 := sumBlock_left_lt 16 v32 buf32 (by dsimp only at below32; omega)
  generalize sumBlock 16 v32 buf32 l32 = s16 at taken16 below16 ⊢
  obtain ⟨v16, buf16, l16⟩ := s16
  have taken8 := taken16.block room 8 (by decide)
  have below8 := sumBlock_left_lt 8 v16 buf16 (by dsimp only at below16; omega)
  generalize sumBlock 8 v16 buf16 l16 = s8 at taken8 below8 ⊢
  obtain ⟨v8, buf8, l8⟩ := s8
  have taken4 := taken8.block room 4 (by decide)
  have below4 := sumBlock_left_lt 4 v8 buf8 (by dsimp only at below8; omega)
  generalize sumBlock 4 v8 buf8 l8 = s4 at taken4 below4 ⊢
  obtain ⟨v4, buf4, l4⟩ := s4
  dsimp only at below4 ⊢
  have left4 : l4 ≤ l := taken4.left_le
  have even4 : (l - l4) % 2 = 0 := taken4.even
  have sum4 : v4 = sumWords v (rest.take (l - l4)) := taken4.sum
  have rest4 : buf4 = rest.drop (l - l4) := taken4.rest
  by_cases last : l4 = 0
  · rw [if_neg (not_not.mpr last), sum4, last, Nat.sub_zero]
  · -- an even number of bytes below four that is not zero is one word
    have two : l4 = 2 := by omega
    obtain ⟨hi, lo, more, spelled⟩ : ∃ hi lo more, buf4 = hi :: lo :: more := by
      have long : 2 ≤ buf4.length := by rw [rest4, List.length_drop]; omega
      match buf4, long with
      | hi :: lo :: more, _ => exact ⟨hi, lo, more, rfl⟩
    have whole : l = (l - l4) + l4 := by omega
    rw [if_pos last, whole, sumWords_take_add _ _ _ even4 (by omega), ← sum4, ← rest4, spelled, two]
    simp [sumWords]

/-! ### The words of RFC 1071 -/

/-- The big-endian 16-bit words of a byte string, the last byte of one of
odd length padded with zero (RFC 1071). -/
def words : List UInt8 → List Nat
  | hi :: lo :: rest => (hi.toNat * 256 + lo.toNat) :: words rest
  | [hi] => [hi.toNat * 256]
  | [] => []

/-- The checksum of RFC 1071 from an initial sum: the one's complement sum
of the initial sum and the words of the bytes. -/
def rfc1071Checksum (bytes : List UInt8) (initial : Nat) : Nat :=
  OnesComplement.sum initial (words bytes)

/-- What the bytes add to a sum of words after an odd or an even number of
bytes: after an odd number, the first byte is the low byte of its word. -/
def wordValue (odd : Bool) (bytes : List UInt8) : Nat :=
  if odd then (bytes.headD 0).toNat + (words (bytes.drop 1)).sum else (words bytes).sum

theorem words_lt : ∀ {bytes : List UInt8}, ∀ w ∈ words bytes, w < 65536
  | hi :: lo :: rest, w, member => by
    rw [words, List.mem_cons] at member
    rcases member with rfl | later
    · have := hi.toNat_lt
      have := lo.toNat_lt
      omega
    · exact words_lt w later
  | [hi], w, member => by
    rw [words, List.mem_singleton] at member
    have := hi.toNat_lt
    omega
  | [], _, member => by simp [words] at member

theorem words_append_of_even :
    ∀ {xs : List UInt8}, xs.length % 2 = 0 → ∀ ys : List UInt8, words (xs ++ ys) = words xs ++ words ys
  | [], _, _ => rfl
  | [_], odd, _ => by simp at odd
  | hi :: lo :: xs, even, ys => by
    rw [List.cons_append, List.cons_append, words, words, words_append_of_even (by simp at even; omega),
      List.cons_append]

theorem sum_words_append (xs ys : List UInt8) :
    (words (xs ++ ys)).sum = (words xs).sum + wordValue (decide (xs.length % 2 = 1)) ys := by
  by_cases parity : xs.length % 2 = 1
  · -- the last byte of `xs` and the first of `ys` make one word
    obtain ⟨front, last, rfl⟩ : ∃ front last, xs = front ++ [last] := by
      match List.eq_nil_or_concat xs with
      | .inl empty => simp [empty] at parity
      | .inr ⟨front, last, split⟩ => exact ⟨front, last, by simpa using split⟩
    have frontEven : front.length % 2 = 0 := by simp at parity; omega
    rw [decide_eq_true parity, wordValue, if_pos rfl, List.append_assoc, words_append_of_even frontEven,
      words_append_of_even frontEven, List.sum_append, List.sum_append]
    cases ys with
    | nil => simp [words]
    | cons y ys => simp [words]; omega
  · rw [decide_eq_false parity, wordValue, if_neg Bool.false_ne_true,
      words_append_of_even (by omega), List.sum_append]

theorem sum_words_le : ∀ bytes : List UInt8, (words bytes).sum ≤ 65535 * ((bytes.length + 1) / 2)
  | hi :: lo :: rest => by
    have := sum_words_le rest
    have := hi.toNat_lt
    have := lo.toNat_lt
    simp only [words, List.sum_cons, List.length_cons]
    omega
  | [hi] => by
    have := hi.toNat_lt
    simp only [words, List.sum_cons, List.sum_nil, List.length_singleton]
    omega
  | [] => by simp [words]

@[simp] theorem wordValue_nil (odd : Bool) : wordValue odd [] = 0 := by
  cases odd <;> rfl

theorem wordValue_le (odd : Bool) (bytes : List UInt8) : wordValue odd bytes ≤ 65535 * (bytes.length / 2 + 1) := by
  cases odd with
  | false =>
    have := sum_words_le bytes
    rw [wordValue, if_neg Bool.false_ne_true]
    omega
  | true =>
    have rest := sum_words_le (bytes.drop 1)
    have first : (bytes.headD 0).toNat < 256 := (bytes.headD 0).toNat_lt
    rw [List.length_drop] at rest
    rw [wordValue, if_pos rfl]
    omega

theorem wordValue_append (odd : Bool) (xs ys : List UInt8) :
    wordValue odd (xs ++ ys) = wordValue odd xs + wordValue (decide ((odd.toNat + xs.length) % 2 = 1)) ys := by
  cases odd with
  | false => simpa [wordValue] using sum_words_append xs ys
  | true =>
    cases xs with
    | nil => simp
    | cons x xs =>
      have parity : decide (xs.length % 2 = 1) = decide ((true.toNat + (x :: xs).length) % 2 = 1) := by
        simp only [Bool.toNat_true, List.length_cons, decide_eq_decide]
        omega
      rw [List.cons_append, wordValue, wordValue, if_pos rfl, if_pos rfl, List.headD_cons, List.headD_cons,
        List.drop_one, List.drop_one, List.tail_cons, List.tail_cons, sum_words_append, parity, Nat.add_assoc]

theorem words_replicate (b : UInt8) : ∀ k : Nat, words (List.replicate (2 * k) b) = List.replicate k (b.toNat * 256 + b.toNat)
  | 0 => rfl
  | k + 1 => by
    rw [show 2 * (k + 1) = 2 * k + 1 + 1 by omega, List.replicate_succ, List.replicate_succ, words, words_replicate b k,
      List.replicate_succ]

/-! ### The 32-bit sum -/

theorem toNat_high (b : UInt8) : (b.toUInt32 <<< 8).toNat = b.toNat * 256 := by
  have := b.toNat_lt
  simp only [UInt32.toNat_shiftLeft, UInt8.toNat_toUInt32, Nat.shiftLeft_eq]
  simp only [Nat.reducePow, Nat.reduceMod, UInt32.toNat_ofNat]
  omega

theorem toNat_word (hi lo : UInt8) : (word hi lo).toNat = hi.toNat * 256 + lo.toNat := by
  have := hi.toNat_lt
  have := lo.toNat_lt
  rw [word, UInt32.toNat_add, toNat_high, UInt8.toNat_toUInt32]
  omega

theorem toNat_sumWords :
    ∀ (v : UInt32) {xs : List UInt8}, xs.length % 2 = 0 → (sumWords v xs).toNat = (v.toNat + (words xs).sum) % 2 ^ 32
  | v, [], _ => by simp [sumWords, words, Nat.mod_eq_of_lt v.toNat_lt]
  | _, [_], odd => by simp at odd
  | v, hi :: lo :: xs, even => by
    rw [sumWords, toNat_sumWords _ (by simp at even; omega), UInt32.toNat_add, toNat_word, words, List.sum_cons]
    omega

theorem addOddStart_sum (buf : List UInt8) (odd : Bool) (v : UInt32) (started : odd = true → buf ≠ []) :
    ((addOddStart buf odd v).1.toNat + (words (addOddStart buf odd v).2).sum) % 2 ^ 32 =
      (v.toNat + wordValue odd buf) % 2 ^ 32 ∧
    odd.toNat + (addOddStart buf odd v).2.length = buf.length := by
  cases odd with
  | false => exact ⟨by simp [addOddStart, wordValue], by simp [addOddStart]⟩
  | true =>
    obtain ⟨b, rest, rfl⟩ := List.exists_cons_of_ne_nil (started rfl)
    refine ⟨?_, by simp [addOddStart]; omega⟩
    simp only [addOddStart, ite_true, UInt32.toNat_add, UInt8.toNat_toUInt32, wordValue, List.headD_cons,
      List.drop_succ_cons, List.drop_zero]
    omega

theorem addOddEnd_sum (v : UInt32) (buf : List UInt8) :
    (sumWords (addOddEnd v buf).1 ((addOddEnd v buf).2.1.take (addOddEnd v buf).2.2.1)).toNat =
      (v.toNat + (words buf).sum) % 2 ^ 32 ∧
    (addOddEnd v buf).2.2.2 = decide (buf.length % 2 = 1) := by
  unfold addOddEnd
  dsimp only
  split
  · rename_i parity
    rw [and_one_bne_zero] at parity
    -- the slice is its bytes in whole words and its last byte
    have whole : (buf.take (buf.length - 1)).length % 2 = 0 := by simp; omega
    have split : buf = buf.take (buf.length - 1) ++ [buf.getD (buf.length - 1) 0] := by
      apply List.ext_getElem (by simp; omega)
      intro i inside _
      rw [List.getElem_append]
      split
      · simp
      · have last : i = buf.length - 1 := by simp at *; omega
        simp [last, List.getD_eq_getElem?_getD, List.getElem?_eq_getElem (show buf.length - 1 < buf.length by omega)]
    refine ⟨?_, by simp [parity]⟩
    rw [toNat_sumWords _ whole, UInt32.toNat_add, toNat_high]
    conv_rhs => rw [split, words_append_of_even whole, List.sum_append]
    simp only [words, List.sum_cons, List.sum_nil]
    omega
  · rename_i parity
    rw [and_one_bne_zero] at parity
    refine ⟨?_, by simp [parity]⟩
    dsimp only
    rw [List.take_length, toNat_sumWords _ (by omega)]


theorem toNat_checksumCombine (v : UInt32) :
    (checksumCombine v.toUInt16 (v >>> 16).toUInt16).toNat = OnesComplement.fold v.toNat := by
  have high : v.toNat / 65536 < 65536 := by have := v.toNat_lt; omega
  rw [← OnesComplement.fold_low_add_high]
  simp only [checksumCombine, UInt32.toNat_toUInt16, UInt32.toNat_add, UInt16.toNat_toUInt32,
    UInt32.toNat_shiftRight, Nat.shiftRight_eq_div_pow, Nat.reducePow, Nat.reduceMod, UInt32.toNat_ofNat,
    Nat.mod_eq_of_lt high]
  -- the halves added do not reach 2 ^ 17, so at most one carry is added back
  have halves : v.toNat % 65536 + v.toNat / 65536 < 131071 := by omega
  generalize v.toNat % 65536 + v.toNat / 65536 = w at halves ⊢
  rw [Nat.mod_eq_of_lt (show w < 4294967296 by omega), Nat.mod_eq_of_lt (show w + w / 65536 < 4294967296 by omega)]
  by_cases carried : w < 65536
  · rw [Nat.div_eq_of_lt carried, Nat.add_zero, Nat.mod_eq_of_lt carried, OnesComplement.fold_of_lt carried]
  · have once : w / 65536 = 1 := by omega
    rw [once, OnesComplement.fold, if_neg (by omega)]
    omega

theorem calculateChecksum_spec (buf : List UInt8) (odd : Bool) (initial : UInt32) (started : odd = true → buf ≠ []) :
    (calculateChecksum buf odd initial).1.toNat = OnesComplement.fold ((initial.toNat + wordValue odd buf) % 2 ^ 32) ∧
    (calculateChecksum buf odd initial).2 = decide ((odd.toNat + buf.length) % 2 = 1) := by
  obtain ⟨startSum, startLength⟩ := addOddStart_sum buf odd initial started
  unfold calculateChecksum checksumPrologue
  generalize addOddStart buf odd initial = start at startSum startLength ⊢
  obtain ⟨v, rest⟩ := start
  obtain ⟨endSum, endOdd⟩ := addOddEnd_sum v rest
  dsimp only at startSum startLength ⊢
  refine ⟨by rw [toNat_checksumCombine, endSum, startSum], ?_⟩
  rw [endOdd, decide_eq_decide]
  cases odd <;> simp only [Bool.toNat_false, Bool.toNat_true] at startLength ⊢ <;> omega

theorem sum_add_wordValue_lt {sum : Nat} (small : sum < 65536) (odd : Bool) {bytes : List UInt8}
    (short : bytes.length < 2 ^ 17) : sum + wordValue odd bytes < 2 ^ 32 := by
  have := wordValue_le odd bytes
  omega

theorem unrolledCalculateChecksum_of_short (buf : List UInt8) (odd : Bool) (initial : UInt16)
    (started : odd = true → buf ≠ []) (short : buf.length < 2 ^ 17) :
    (unrolledCalculateChecksum buf odd initial.toUInt32).1.toNat = OnesComplement.fold (initial.toNat + wordValue odd buf) ∧
    (unrolledCalculateChecksum buf odd initial.toUInt32).2 = decide ((odd.toNat + buf.length) % 2 = 1) := by
  obtain ⟨sum, parity⟩ := calculateChecksum_spec buf odd initial.toUInt32 started
  rw [UInt16.toNat_toUInt32, Nat.mod_eq_of_lt (sum_add_wordValue_lt initial.toNat_lt odd short)] at sum
  rw [unrolledCalculateChecksum_eq]
  exact ⟨sum, parity⟩

theorem toNat_checksum (buf : List UInt8) (initial : UInt16) :
    (checksum buf initial).toNat = OnesComplement.fold ((initial.toNat + (words buf).sum) % 2 ^ 32) := by
  rw [checksum, unrolledCalculateChecksum_eq, (calculateChecksum_spec buf false _ Bool.noConfusion).1,
    UInt16.toNat_toUInt32, wordValue, if_neg Bool.false_ne_true]

theorem toNat_checksum_of_short {buf : List UInt8} (initial : UInt16) (short : buf.length < 2 ^ 17) :
    (checksum buf initial).toNat = rfc1071Checksum buf initial.toNat := by
  have fits := sum_add_wordValue_lt initial.toNat_lt false short
  rw [wordValue, if_neg Bool.false_ne_true] at fits
  rw [toNat_checksum, Nat.mod_eq_of_lt fits, rfc1071Checksum, OnesComplement.sum_eq_fold initial.toNat_lt words_lt]

/-! ### Vectorised views -/

theorem take_drop_flatten_cons (v : List UInt8) (views : List (List UInt8)) {off : Nat} (inside : off ≤ v.length)
    (size : Nat) :
    ((v :: views).flatten.drop off).take size =
      (v.drop off).take size ++ views.flatten.take (size - (v.drop off).length) := by
  rw [List.flatten_cons, List.drop_append_of_le_length inside, List.take_append]

theorem take_if_length_gt (bytes : List UInt8) (size : Nat) :
    bytes.take (if bytes.length > size then size else bytes.length) = bytes.take size := by
  split
  · rfl
  · rw [List.take_length, List.take_of_length_le (by omega)]

theorem chunk_spec (v : List UInt8) (views : List (List UInt8)) {off : Nat} (inside : off < v.length) {odd : Bool}
    {size : Nat} (started : odd = true → 0 < size) {sum sum' : UInt16} {odd' : Bool}
    (short : ∀ w ∈ v :: views, min w.length (((v :: views).flatten.drop off).take size).length < 2 ^ 17)
    (computed : unrolledCalculateChecksum ((v.drop off).take size) odd sum.toUInt32 = (sum', odd')) :
    sum'.toNat = OnesComplement.fold (sum.toNat + wordValue odd ((v.drop off).take size)) ∧
    odd' = decide ((odd.toNat + ((v.drop off).take size).length) % 2 = 1) := by
  have inView := short v List.mem_cons_self
  rw [take_drop_flatten_cons v views (Nat.le_of_lt inside), List.length_append] at inView
  have chunkLength : ((v.drop off).take size).length = min size (v.length - off) := by
    rw [List.length_take, List.length_drop]
  have nonempty : odd = true → (v.drop off).take size ≠ [] := by
    intro oddStart
    have := started oddStart
    rw [← List.length_pos_iff]
    omega
  have := unrolledCalculateChecksum_of_short _ odd sum nonempty (by omega)
  rwa [computed] at this

theorem checksumVVWithOffsetLoop_spec (odd : Bool) (sum : UInt16) (off size : Nat) (views : List (List UInt8)) :
    (odd = true → 0 < size) →
    (∀ v ∈ views, min v.length ((views.flatten.drop off).take size).length < 2 ^ 17) →
    (checksumVVWithOffsetLoop odd sum off size views).toNat =
      OnesComplement.fold (sum.toNat + wordValue odd ((views.flatten.drop off).take size)) := by
  fun_induction checksumVVWithOffsetLoop odd sum off size views with
  | case1 odd sum off size =>
    intro _ _
    simp [OnesComplement.fold_of_lt sum.toNat_lt]
  | case2 odd sum off size v views empty ih =>
    intro started short
    -- an empty view holds none of the bytes
    have same : (v :: views).flatten = views.flatten := by simp [List.length_eq_zero_iff.mp empty]
    rw [same] at short ⊢
    exact ih started fun w member => short w (List.mem_cons_of_mem v member)
  | case3 odd sum off size v views nonempty skipped ih =>
    intro started short
    have same : (v :: views).flatten.drop off = views.flatten.drop (off - v.length) := by
      rw [List.flatten_cons, List.drop_append, List.drop_eq_nil_of_le skipped, List.nil_append]
    rw [same] at short ⊢
    exact ih started fun w member => short w (List.mem_cons_of_mem v member)
  | case4 odd sum off size v views nonempty inside dropped l chunk sum' odd' computed left done =>
    intro started short
    have chunkEq : chunk = (v.drop off).take size := take_if_length_gt (v.drop off) size
    rw [chunkEq] at computed
    obtain ⟨summed, _⟩ := chunk_spec v views (Nat.lt_of_not_ge inside) started short computed
    -- the size ends within this view
    have within : size ≤ (v.drop off).length := by
      simp only [left, chunkEq, List.length_take] at done
      omega
    rw [summed, List.flatten_cons, List.drop_append_of_le_length (by omega), List.take_append_of_le_length within]
  | case5 odd sum off size v views nonempty inside dropped l chunk sum' odd' computed left more ih =>
    intro started short
    have chunkEq : chunk = (v.drop off).take size := take_if_length_gt (v.drop off) size
    rw [chunkEq] at computed
    obtain ⟨summed, parity⟩ := chunk_spec v views (Nat.lt_of_not_ge inside) started short computed
    -- the view is added whole, and the loop goes on with what is left of the size
    have leftEq : left = size - (v.drop off).length := by
      simp only [left, chunkEq, List.length_take]
      omega
    have split := take_drop_flatten_cons v views (Nat.le_of_lt (Nat.lt_of_not_ge inside)) size
    have restShort : ∀ w ∈ views, min w.length (((views.flatten.drop 0).take left)).length < 2 ^ 17 := by
      intro w member
      have inView := short w (List.mem_cons_of_mem v member)
      rw [split, List.length_append] at inView
      rw [List.drop_zero, leftEq]
      omega
    rw [ih (fun _ => Nat.pos_of_ne_zero more) restShort, summed, OnesComplement.fold_fold_add, split,
      wordValue_append, ← parity, List.drop_zero, leftEq, Nat.add_assoc]

theorem toNat_checksumVVWithOffset (vv : VectorisedView) (initial : UInt16) (off size : Nat)
    (short : ∀ v ∈ vv.views, min v.length ((vv.views.flatten.drop off).take size).length < 2 ^ 17) :
    (checksumVVWithOffset vv initial off size).toNat =
      rfc1071Checksum ((vv.views.flatten.drop off).take size) initial.toNat := by
  rw [checksumVVWithOffset, checksumVVWithOffsetLoop_spec false initial off size vv.views Bool.noConfusion short,
    wordValue, if_neg Bool.false_ne_true, rfc1071Checksum, OnesComplement.sum_eq_fold initial.toNat_lt words_lt]

theorem checksum_agrees_across_implementations :
    (∀ (buf : List UInt8) (initial : UInt16), checksum buf initial = checksumOld buf initial) ∧
    (∀ (buf : List UInt8) (initial : UInt16), buf.length < 2 ^ 17 →
      (checksum buf initial).toNat = rfc1071Checksum buf initial.toNat) ∧
    (∀ (vv : VectorisedView) (initial : UInt16) (off size : Nat),
      ((vv.views.flatten.drop off).take size).length < 2 ^ 17 →
      checksumVVWithOffset vv initial off size = checksum ((vv.views.flatten.drop off).take size) initial) := by
  refine ⟨fun buf initial => by rw [checksum, checksumOld, unrolledCalculateChecksum_eq],
    fun buf initial short => toNat_checksum_of_short initial short, ?_⟩
  intro vv initial off size short
  -- each view's part of the selection is shorter than the selection
  have partShort : ∀ v ∈ vv.views, min v.length ((vv.views.flatten.drop off).take size).length < 2 ^ 17 :=
    fun v _ => Nat.lt_of_le_of_lt (Nat.min_le_right _ _) short
  apply UInt16.toNat_inj.mp
  rw [toNat_checksumVVWithOffset vv initial off size partShort, toNat_checksum_of_short initial short]

theorem checksum_agrees_across_implementations_on_two_views :
    ((([[1, 2, 3], [4, 5]] : List (List UInt8)).flatten.drop 1).take 3).length < 2 ^ 17 ∧
    checksumVVWithOffset ⟨[[1, 2, 3], [4, 5]], 5⟩ 0x1234 1 3 =
      checksum ((([[1, 2, 3], [4, 5]] : List (List UInt8)).flatten.drop 1).take 3) 0x1234 :=
  ⟨by decide, checksum_agrees_across_implementations.2.2 ⟨[[1, 2, 3], [4, 5]], 5⟩ 0x1234 1 3 (by decide)⟩

theorem checksumVVWithOffset_folds_where_checksum_overflows :
    checksumVVWithOffset ⟨[List.replicate 65538 255, List.replicate 65538 255], 131076⟩ 0 0 131076 = 0xFFFF ∧
    checksum (([List.replicate 65538 255, List.replicate 65538 255].flatten.drop 0).take 131076) 0 = 0xFFFE := by
  have selection : (([List.replicate 65538 (255 : UInt8), List.replicate 65538 255].flatten.drop 0).take 131076) =
      List.replicate (2 * 65538) 255 := by
    rw [List.flatten_cons, List.flatten_cons, List.flatten_nil, List.append_nil, List.drop_zero,
      List.replicate_append_replicate, List.take_replicate]
    rfl
  have summed : (words (List.replicate (2 * 65538) (255 : UInt8))).sum = 65538 * 65535 := by
    rw [words_replicate, List.sum_replicate_nat]
    rfl
  -- each view is shorter than 2 ^ 17 bytes, the two together are not
  have viewsShort : ∀ v ∈ [List.replicate 65538 (255 : UInt8), List.replicate 65538 255],
      min v.length (([List.replicate 65538 (255 : UInt8), List.replicate 65538 255].flatten.drop 0).take 131076).length <
        2 ^ 17 := by
    intro v member
    simp only [List.mem_cons, List.not_mem_nil, or_false, or_self] at member
    rw [member, selection, List.length_replicate, List.length_replicate]
    decide
  constructor
  · apply UInt16.toNat_inj.mp
    rw [toNat_checksumVVWithOffset _ _ _ _ viewsShort, selection, rfc1071Checksum,
      OnesComplement.sum_eq_fold (by decide) words_lt, summed]
    decide
  · apply UInt16.toNat_inj.mp
    rw [selection, toNat_checksum, summed]
    decide

end Cijitter.Header
