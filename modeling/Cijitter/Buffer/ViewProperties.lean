import Cijitter.Buffer.View

/-! `buffer.View` read as the byte string it holds: the bytes of its buffers
from their read to their write index, in order. `Valid` is what every view
keeps: each buffer holds `write - read` bytes with `read ≤ write ≤ 8144`,
and `size` counts them all. The operations keep it and act on the byte
string as their names say; `ReadToWriter` does so only for a writer that
takes everything, since its batched path drops the writer's count. -/

set_option autoImplicit false

namespace Cijitter.BufferView

namespace Buffer

structure Valid (b : Buffer) : Prop where
  length : b.bytes.length = b.write - b.read
  ordered : b.read ≤ b.write
  bounded : b.write ≤ bufferSize

theorem valid_fresh : fresh.Valid :=
  ⟨rfl, Nat.le_refl 0, Nat.zero_le _⟩

theorem Valid.readSize_eq {b : Buffer} (valid : b.Valid) : b.readSize = b.bytes.length :=
  valid.length.symm

theorem Valid.readMove {b : Buffer} (valid : b.Valid) {n : Nat} (within : n ≤ b.readSize) : (b.readMove n).Valid := by
  have length := valid.length
  have ordered := valid.ordered
  unfold readSize at within
  exact ⟨by simp only [Buffer.readMove, List.length_drop]; omega, by simp only [Buffer.readMove]; omega, valid.bounded⟩

theorem Valid.writeBytes {b : Buffer} (valid : b.Valid) {data : List UInt8} (room : data.length ≤ b.writeSize) :
    (b.writeBytes data).Valid := by
  have length := valid.length
  have ordered := valid.ordered
  have bounded := valid.bounded
  unfold writeSize at room
  exact ⟨by simp only [Buffer.writeBytes, List.length_append]; omega, by simp only [Buffer.writeBytes]; omega,
    by simp only [Buffer.writeBytes]; omega⟩

end Buffer

namespace View

/-- The bytes of a list of buffers, in order. -/
def flat (data : List Buffer) : List UInt8 :=
  (data.map Buffer.bytes).flatten

@[simp] theorem flat_nil : flat [] = [] := rfl

@[simp] theorem flat_cons (buf : Buffer) (rest : List Buffer) : flat (buf :: rest) = buf.bytes ++ flat rest := rfl

theorem flat_append (front back : List Buffer) : flat (front ++ back) = flat front ++ flat back := by
  simp [flat]

theorem contents_eq_flat (v : View) : v.contents = flat v.data := rfl

structure Valid (v : View) : Prop where
  buffers : ∀ buf ∈ v.data, buf.Valid
  size : v.size = v.contents.length

/-! ### Dropping bytes from the front -/

theorem advanceReadLoop_spec : ∀ (data : List Buffer) (size count : Nat), (∀ buf ∈ data, buf.Valid) →
    size = (flat data).length → count ≤ size →
    ∃ v, advanceReadLoop data size count = some v ∧ v.Valid ∧ v.contents = (flat data).drop count
  | [], size, count, _, sized, within => by
    simp only [flat_nil, List.length_nil] at sized
    refine ⟨⟨[], size⟩, by simp [advanceReadLoop]; omega, ⟨by simp, by simp [contents]; omega⟩, by simp [contents]⟩
  | buf :: rest, size, count, valid, sized, within => by
    have bufValid := valid buf List.mem_cons_self
    have restValid : ∀ b ∈ rest, b.Valid := fun b member => valid b (List.mem_cons_of_mem buf member)
    have readSize := bufValid.readSize_eq
    simp only [flat_cons, List.length_append] at sized
    unfold advanceReadLoop
    by_cases nothing : count = 0
    · subst nothing
      exact ⟨⟨buf :: rest, size⟩, if_pos rfl, ⟨valid, by rw [sized]; simp [contents, flat]⟩, rfl⟩
    rw [if_neg nothing]
    by_cases inside : buf.readSize > count
    · -- the count ends inside the front buffer: move its read index
      rw [if_pos inside]
      refine ⟨_, rfl, ⟨fun b member => ?_, ?_⟩, ?_⟩
      · rcases List.mem_cons.mp member with rfl | later
        · exact bufValid.readMove (Nat.le_of_lt inside)
        · exact restValid b later
      · show size - count = (flat (buf.readMove count :: rest)).length
        rw [flat_cons, List.length_append, Buffer.readMove, List.length_drop]
        omega
      · simp only [contents, List.map_cons, List.flatten_cons, Buffer.readMove, flat_cons]
        rw [List.drop_append_of_le_length (by omega)]
        rfl
    · -- the front buffer is consumed whole
      rw [if_neg inside]
      obtain ⟨v, looped, vValid, dropped⟩ :=
        advanceReadLoop_spec rest (size - buf.readSize) (count - buf.readSize) restValid (by omega) (by omega)
      refine ⟨v, looped, vValid, ?_⟩
      rw [dropped, flat_cons, List.drop_append, List.drop_eq_nil_of_le (show buf.bytes.length ≤ count by omega),
        List.nil_append, readSize]

theorem Valid.trimFront {v : View} (valid : v.Valid) (count : Nat) :
    ∃ v', v.trimFront count = some v' ∧ v'.Valid ∧ v'.contents = v.contents.drop count := by
  have sized : v.size = (flat v.data).length := valid.size
  unfold View.trimFront advanceRead
  by_cases all : count ≥ v.size
  · rw [if_pos all]
    obtain ⟨v', trimmed, validTrimmed, dropped⟩ := advanceReadLoop_spec v.data v.size v.size valid.buffers sized
      (Nat.le_refl _)
    refine ⟨v', trimmed, validTrimmed, ?_⟩
    rw [dropped, contents_eq_flat, List.drop_eq_nil_of_le (by omega), List.drop_eq_nil_of_le (by omega)]
  · rw [if_neg all]
    exact advanceReadLoop_spec v.data v.size count valid.buffers sized (by omega)

/-! ### Reading at an offset -/

theorem readAtLoop_eq (length offset : Nat) : ∀ (data : List Buffer) (skipped : Nat) (out : List UInt8),
    (∀ buf ∈ data, buf.Valid) → skipped ≤ offset → out.length ≤ length →
    readAtLoop length offset data skipped out = out ++ ((flat data).drop (offset - skipped)).take (length - out.length)
  | [], _, out, _, _, _ => by simp [readAtLoop]
  | buf :: rest, skipped, out, valid, before, short => by
    have readSize := (valid buf List.mem_cons_self).readSize_eq
    have restValid : ∀ b ∈ rest, b.Valid := fun b member => valid b (List.mem_cons_of_mem buf member)
    unfold readAtLoop
    by_cases full : out.length < length
    · rw [if_pos full]
      by_cases skip : buf.readSize ≤ offset - skipped
      · -- the whole buffer lies before the offset
        rw [if_pos skip, readAtLoop_eq length offset rest _ out restValid (by omega) short, flat_cons,
          List.drop_append, List.drop_eq_nil_of_le (show buf.bytes.length ≤ offset - skipped by omega),
          List.nil_append, show offset - skipped - buf.bytes.length = offset - (skipped + buf.readSize) by omega]
      · -- copy from inside the buffer, then on from the next one's start
        rw [if_neg skip]
        have copied : ((buf.bytes.drop (offset - skipped)).take (length - out.length)).length ≤
            length - out.length := by
          rw [List.length_take]
          exact Nat.min_le_left _ _
        rw [readAtLoop_eq length offset rest _ _ restValid (by omega) (by simp only [List.length_append]; omega),
          flat_cons, List.drop_append_of_le_length (by omega), List.take_append, List.append_assoc,
          show offset - (skipped + (offset - skipped)) = 0 by omega, List.drop_zero, List.length_append]
        congr 3
        simp only [List.length_take, List.length_drop]
        omega
    · rw [if_neg full, show length - out.length = 0 by omega, List.take_zero, List.append_nil]

theorem Valid.readAt {v : View} (valid : v.Valid) (length offset : Nat) :
    (v.readAt length offset).1 = (v.contents.drop offset).take length := by
  simp only [View.readAt]
  rw [readAtLoop_eq length offset v.data 0 [] valid.buffers (Nat.zero_le _) (Nat.zero_le _)]
  rfl

/-! ### Appending -/

theorem Valid.backWithSpace {v : View} (valid : v.Valid) :
    flat v.backWithSpace.1 ++ v.backWithSpace.2.bytes = v.contents ∧ (∀ b ∈ v.backWithSpace.1, b.Valid) ∧
      v.backWithSpace.2.Valid ∧ 0 < v.backWithSpace.2.writeSize := by
  unfold View.backWithSpace
  rcases last : v.data.getLast? with _ | buf <;> dsimp only
  · have empty := List.getLast?_eq_none_iff.mp last
    refine ⟨by rw [contents_eq_flat, empty]; rfl, fun _ member => absurd member List.not_mem_nil, Buffer.valid_fresh,
      by decide⟩
  · have bufValid := valid.buffers buf (List.mem_of_getLast? last)
    by_cases full : buf.full
    · rw [if_pos full]
      exact ⟨List.append_nil _, valid.buffers, Buffer.valid_fresh, (by decide : 0 < Buffer.fresh.writeSize)⟩
    · -- a back buffer that is not full has room, and is taken off the list
      rw [if_neg full]
      have split := List.dropLast_append_getLast? buf (by rw [last]; exact rfl)
      have room : 0 < buf.writeSize := by
        have := bufValid.bounded
        simp only [Buffer.full, beq_iff_eq] at full
        unfold Buffer.writeSize
        omega
      refine ⟨?_, fun b member => valid.buffers b (List.dropLast_subset _ member), bufValid, room⟩
      rw [contents_eq_flat, ← split, flat_append]
      simp

theorem appendLoop_spec : ∀ (fuel : Nat) (v : View) (data : List UInt8), v.Valid → data.length < fuel →
    (appendLoop fuel v data).Valid ∧ (appendLoop fuel v data).contents = v.contents ++ data
  | 0, _, _, _, short => absurd short (Nat.not_lt_zero _)
  | fuel + 1, v, data, valid, short => by
    unfold appendLoop
    by_cases empty : data = []
    · rw [if_pos empty, empty, List.append_nil]
      exact ⟨valid, rfl⟩
    rw [if_neg empty]
    obtain ⟨holds, before, back, room⟩ := valid.backWithSpace
    rcases split : v.backWithSpace with ⟨front, buf⟩
    rw [split] at holds before back room
    dsimp only at holds before back room ⊢
    have some : 0 < data.length := List.length_pos_iff.mpr empty
    -- one turn fills the back buffer with as much as fits
    have filled : View.Valid ⟨front ++ [buf.writeBytes (data.take (min buf.writeSize data.length))],
        v.size + min buf.writeSize data.length⟩ := by
      refine ⟨fun b member => ?_, ?_⟩
      · rcases List.mem_append.mp member with early | last
        · exact before b early
        · rw [List.mem_singleton.mp last]
          exact back.writeBytes (by rw [List.length_take]; omega)
      · have sized := valid.size
        show v.size + min buf.writeSize data.length = (flat (front ++ [_])).length
        have total := congrArg List.length holds
        rw [List.length_append] at total
        rw [flat_append, flat_cons, flat_nil, List.append_nil, List.length_append, Buffer.writeBytes,
          List.length_append, List.length_take]
        omega
    obtain ⟨looped, grown⟩ := appendLoop_spec fuel _ (data.drop (min buf.writeSize data.length)) filled
      (by simp only [List.length_drop]; omega)
    refine ⟨looped, ?_⟩
    rw [grown]
    show flat (front ++ [_]) ++ _ = _
    rw [flat_append, flat_cons, flat_nil, List.append_nil, Buffer.writeBytes, ← List.append_assoc, holds,
      List.append_assoc, List.take_append_drop]

theorem Valid.append {v : View} (valid : v.Valid) (data : List UInt8) :
    (v.append data).Valid ∧ (v.append data).contents = v.contents ++ data :=
  appendLoop_spec _ v data valid (Nat.lt_succ_self _)

theorem growLoop_eq_appendLoop (length : Nat) : ∀ (fuel : Nat) (v : View),
    growLoop length fuel v = appendLoop fuel v (List.replicate (length - v.size) 0)
  | 0, _ => rfl
  | fuel + 1, v => by
    unfold growLoop appendLoop
    by_cases short : v.size < length
    · rw [if_pos short, if_neg (by rw [List.replicate_eq_nil_iff]; omega)]
      rcases v.backWithSpace with ⟨before, buf⟩
      dsimp only
      rw [growLoop_eq_appendLoop length fuel, List.length_replicate, List.take_replicate, List.drop_replicate,
        Nat.min_eq_left (Nat.min_le_right _ _), Nat.sub_sub]
    · rw [if_neg short, if_pos (by rw [List.replicate_eq_nil_iff]; omega)]

theorem Valid.grow {v : View} (valid : v.Valid) (length : Nat) :
    (v.grow length).Valid ∧ (v.grow length).contents = v.contents ++ List.replicate (length - v.contents.length) 0 := by
  rw [View.grow, growLoop_eq_appendLoop, ← valid.size]
  exact appendLoop_spec _ v _ valid (by rw [List.length_replicate]; omega)

/-! ### Cutting bytes off the back -/

theorem truncateLoop_spec (length : Nat) : ∀ (back : List Buffer) (size : Nat), (∀ buf ∈ back, buf.Valid) →
    size = (flat back.reverse).length →
    (truncateLoop length back size).Valid ∧ (truncateLoop length back size).contents = (flat back.reverse).take length
  | [], size, _, sized => by
    simp only [List.reverse_nil, flat_nil, List.length_nil] at sized
    exact ⟨⟨fun _ member => absurd member List.not_mem_nil, sized⟩, by rw [List.reverse_nil, flat_nil, List.take_nil]; rfl⟩
  | buf :: before, size, valid, sized => by
    have bufValid := valid buf List.mem_cons_self
    have readSize := bufValid.readSize_eq
    have beforeValid : ∀ b ∈ before, b.Valid := fun b member => valid b (List.mem_cons_of_mem buf member)
    have front : flat (buf :: before).reverse = flat before.reverse ++ buf.bytes := by
      rw [List.reverse_cons, flat_append, flat_cons, flat_nil, List.append_nil]
    rw [front, List.length_append] at sized
    rw [front]
    unfold truncateLoop
    by_cases longer : size > length
    · rw [if_pos longer]
      by_cases inside : size - buf.readSize < length
      · -- the length falls inside this buffer, which keeps its first bytes
        rw [if_pos inside]
        have kept : (flat (before.reverse ++ [⟨buf.bytes.take (length - (size - buf.readSize)), buf.read,
            buf.read + (length - (size - buf.readSize))⟩])) = (flat before.reverse ++ buf.bytes).take length := by
          rw [flat_append, flat_cons, flat_nil, List.append_nil, List.take_append,
            List.take_of_length_le (show (flat before.reverse).length ≤ length by omega),
            show length - (flat before.reverse).length = length - (size - buf.readSize) by omega]
        refine ⟨⟨fun b member => ?_, ?_⟩, kept⟩
        · rcases List.mem_append.mp member with early | last
          · exact beforeValid b (List.mem_reverse.mp early)
          · rw [List.mem_singleton.mp last]
            have := bufValid.length
            have := bufValid.bounded
            exact ⟨by simp only [List.length_take]; omega, by dsimp only; omega, by dsimp only; omega⟩
        · show length = (flat (before.reverse ++ [_])).length
          rw [kept, List.length_take, List.length_append]
          omega
      · -- the buffer is dropped whole
        rw [if_neg inside]
        obtain ⟨looped, contents⟩ := truncateLoop_spec length before (size - buf.readSize) beforeValid (by omega)
        exact ⟨looped, by rw [contents, List.take_append_of_le_length (by omega)]⟩
    · rw [if_neg longer]
      refine ⟨⟨fun b member => valid b (List.mem_reverse.mp member), ?_⟩, ?_⟩
      · show size = (flat (buf :: before).reverse).length
        rw [front, List.length_append]
        omega
      · show flat (buf :: before).reverse = _
        rw [front, List.take_of_length_le (by rw [List.length_append]; omega)]

theorem Valid.truncate {v : View} (valid : v.Valid) (length : Nat) :
    (v.truncate length).Valid ∧ (v.truncate length).contents = v.contents.take length := by
  unfold View.truncate
  by_cases all : length ≥ v.size
  · rw [if_pos all]
    exact ⟨valid, (List.take_of_length_le (by rw [← valid.size]; exact all)).symm⟩
  · rw [if_neg all]
    have cut := truncateLoop_spec length v.data.reverse v.size
      (fun b member => valid.buffers b (List.mem_reverse.mp member)) (by rw [List.reverse_reverse]; exact valid.size)
    rwa [List.reverse_reverse] at cut

/-! ### Prepending -/

theorem prependLoop_spec : ∀ (fuel : Nat) (v : View) (data : List UInt8), v.Valid → data.length < fuel →
    (prependLoop fuel v data).Valid ∧ (prependLoop fuel v data).contents = data ++ v.contents
  | 0, _, _, _, short => absurd short (Nat.not_lt_zero _)
  | fuel + 1, v, data, valid, short => by
    unfold prependLoop
    by_cases empty : data = []
    · rw [if_pos empty, empty]
      exact ⟨valid, rfl⟩
    rw [if_neg empty]
    dsimp only
    have some : 0 < data.length := List.length_pos_iff.mpr empty
    have positive : 0 < bufferSize := by decide
    -- a fresh buffer holding the last `n` bytes at its end
    have pushed : View.Valid ⟨⟨data.drop (data.length - min bufferSize data.length),
        bufferSize - min bufferSize data.length, bufferSize⟩ :: v.data, v.size + min bufferSize data.length⟩ := by
      refine ⟨fun b member => ?_, ?_⟩
      · rcases List.mem_cons.mp member with rfl | later
        · exact ⟨by simp only [List.length_drop]; omega, Nat.sub_le _ _, Nat.le_refl _⟩
        · exact valid.buffers b later
      · show v.size + min bufferSize data.length = (flat (_ :: v.data)).length
        rw [flat_cons, List.length_append, List.length_drop, ← contents_eq_flat, ← valid.size]
        omega
    obtain ⟨looped, contents⟩ := prependLoop_spec fuel _ (data.take (data.length - min bufferSize data.length)) pushed
      (by rw [List.length_take]; omega)
    refine ⟨looped, ?_⟩
    rw [contents]
    show data.take _ ++ (data.drop _ ++ flat v.data) = _
    rw [← List.append_assoc, List.take_append_drop]
    rfl

theorem Valid.prepend {v : View} (valid : v.Valid) (data : List UInt8) :
    (v.prepend data).Valid ∧ (v.prepend data).contents = data ++ v.contents := by
  unfold View.prepend
  rcases split : v.data with _ | ⟨buf, rest⟩ <;> dsimp only
  · exact prependLoop_spec _ v data valid (Nat.lt_succ_self _)
  by_cases room : buf.read > 0
  · -- the room before the front buffer's read index takes the last bytes
    rw [if_pos room]
    have bufValid := valid.buffers buf (by rw [split]; exact List.mem_cons_self)
    have filled : View.Valid ⟨⟨data.drop (data.length - min buf.read data.length) ++ buf.bytes,
        buf.read - min buf.read data.length, buf.write⟩ :: rest, v.size + min buf.read data.length⟩ := by
      refine ⟨fun b member => ?_, ?_⟩
      · rcases List.mem_cons.mp member with rfl | later
        · have := bufValid.length
          have := bufValid.ordered
          exact ⟨by simp only [List.length_append, List.length_drop]; omega, by dsimp only; omega, bufValid.bounded⟩
        · exact valid.buffers b (by rw [split]; exact List.mem_cons_of_mem buf later)
      · have sized := valid.size
        rw [contents_eq_flat, split, flat_cons, List.length_append] at sized
        show v.size + min buf.read data.length = (flat (_ :: rest)).length
        rw [flat_cons, List.length_append, List.length_append, List.length_drop]
        omega
    obtain ⟨looped, contents⟩ := prependLoop_spec (data.length + 1) _ (data.take (data.length - min buf.read data.length))
      filled (by rw [List.length_take]; omega)
    refine ⟨looped, ?_⟩
    rw [contents, contents_eq_flat, contents_eq_flat, split]
    show data.take _ ++ flat (⟨data.drop _ ++ buf.bytes, _, _⟩ :: rest) = _
    rw [flat_cons, flat_cons, ← List.append_assoc, ← List.append_assoc, List.take_append_drop, List.append_assoc]
  · rw [if_neg room]
    exact prependLoop_spec _ v data valid (Nat.lt_succ_self _)

/-! ### Merging, copying and flattening -/

theorem Valid.merge {v other : View} (valid : v.Valid) (otherValid : other.Valid) :
    (v.merge other).1.Valid ∧ (v.merge other).1.contents = v.contents ++ other.contents ∧
      (v.merge other).2.contents = [] ∧ (v.merge other).2.size = 0 := by
  have grown : (v.merge other).1.contents = v.contents ++ other.contents := by
    simp only [View.merge, contents_eq_flat, flat_append]
  refine ⟨⟨fun b member => ?_, ?_⟩, grown, rfl, rfl⟩
  · rcases List.mem_append.mp member with mine | theirs
    · exact valid.buffers b mine
    · exact otherValid.buffers b theirs
  · rw [grown, List.length_append, ← valid.size, ← otherValid.size]
    rfl

theorem copy_spec : ∀ (data : List Buffer) (other : View), other.Valid →
    (data.foldl (fun other buf => other.append buf.bytes) other).Valid ∧
      (data.foldl (fun other buf => other.append buf.bytes) other).contents = other.contents ++ flat data
  | [], _, valid => ⟨valid, (List.append_nil _).symm⟩
  | buf :: rest, other, valid => by
    obtain ⟨appended, grown⟩ := valid.append buf.bytes
    obtain ⟨looped, contents⟩ := copy_spec rest _ appended
    exact ⟨looped, by rw [List.foldl_cons, contents, grown, flat_cons, List.append_assoc]⟩

theorem Valid.copy {v : View} (_ : v.Valid) : v.copy.Valid ∧ v.copy.contents = v.contents := by
  have empty : View.Valid ⟨[], 0⟩ := ⟨fun _ member => absurd member List.not_mem_nil, rfl⟩
  obtain ⟨copied, contents⟩ := copy_spec v.data ⟨[], 0⟩ empty
  exact ⟨copied, contents⟩

theorem foldl_gather (data : List Buffer) (out : List UInt8) :
    data.foldl (fun out buf => out ++ buf.bytes) out = out ++ flat data := by
  induction data generalizing out with
  | nil => exact (List.append_nil _).symm
  | cons buf rest ih => rw [List.foldl_cons, ih, flat_cons, List.append_assoc]

theorem flatten_eq_contents (v : View) : v.flatten = v.contents := by
  unfold View.flatten
  rcases split : v.data with _ | ⟨buf, _ | ⟨next, rest⟩⟩ <;> dsimp only
  · rw [contents_eq_flat, split]; rfl
  · rw [contents_eq_flat, split, flat_cons, flat_nil, List.append_nil]
  · rw [foldl_gather, List.nil_append, contents_eq_flat, split]

/-! ### Reading in from a reader -/

section Reader

variable {ρ : Type} (read : ρ → Nat → ρ × List UInt8 × Option IoError)

/-- `read`, keeping every byte it returns after the ones it kept before. -/
def logged (r : ρ × List UInt8) (k : Nat) : (ρ × List UInt8) × List UInt8 × Option IoError :=
  match read r.1 k with
  | (s, got, err) => ((s, r.2 ++ got), got, err)

theorem Valid.withBack {v : View} (valid : v.Valid) :
    View.Valid ⟨v.backWithSpace.1 ++ [v.backWithSpace.2], v.size⟩ ∧
      View.contents ⟨v.backWithSpace.1 ++ [v.backWithSpace.2], v.size⟩ = v.contents := by
  obtain ⟨holds, before, back, _⟩ := valid.backWithSpace
  have same : View.contents ⟨v.backWithSpace.1 ++ [v.backWithSpace.2], v.size⟩ = v.contents := by
    rw [contents_eq_flat, flat_append, flat_cons, flat_nil, List.append_nil, holds]
  refine ⟨⟨fun b member => ?_, by rw [same]; exact valid.size⟩, same⟩
  rcases List.mem_append.mp member with early | last
  · exact before b early
  · rw [List.mem_singleton.mp last]
    exact back

/-- A turn that appended `got` to the view and the log and went on: the
bytes of the rest of the loop come after `got`. -/
theorem writeFromReader_continues {v v' : View} {log : List UInt8} {done : Nat} {got : List UInt8}
    {result : Option (View × (ρ × List UInt8) × Nat × Option IoError)} (grown : v'.contents = v.contents ++ got)
    (rest : ∃ more w, result = some w ∧ w.1.Valid ∧ w.1.contents = v'.contents ++ more ∧
      w.2.1.2 = log ++ got ++ more ∧ w.2.2.1 = done + got.length + more.length) :
    ∃ got' w, result = some w ∧ w.1.Valid ∧ w.1.contents = v.contents ++ got' ∧ w.2.1.2 = log ++ got' ∧
      w.2.2.1 = done + got'.length := by
  obtain ⟨more, w, looped, valid', contents, logged', counted⟩ := rest
  refine ⟨got ++ more, w, looped, valid', ?_, ?_, ?_⟩
  · rw [contents, grown, List.append_assoc]
  · rw [logged', List.append_assoc]
  · rw [counted, List.length_append, Nat.add_assoc]

/- The reader returns at most the bytes it is asked for, and, asked for at
least one, a byte or an error: `io.Reader`'s contract, under which the loop
ends. -/
variable (bounded : ∀ s k, (read s k).2.1.length ≤ k)
  (progress : ∀ s k, 0 < k → (read s k).2.2.isSome = true ∨ 0 < (read s k).2.1.length) (count : Nat)
include bounded progress

/-- Each turn that goes on reads a byte, so a fuel above the bytes still
wanted ends the loop. -/
theorem writeFromReaderLoop_spec : ∀ (fuel : Nat) (v : View) (r : ρ × List UInt8) (done : Nat), v.Valid →
    count - done < fuel →
    ∃ got w, writeFromReaderLoop (logged read) count fuel v r done = some w ∧ w.1.Valid ∧
      w.1.contents = v.contents ++ got ∧ w.2.1.2 = r.2 ++ got ∧ w.2.2.1 = done + got.length
  | 0, _, _, _, _, enough => absurd enough (Nat.not_lt_zero _)
  | fuel + 1, v, r, done, valid, enough => by
    unfold writeFromReaderLoop
    by_cases more : done < count
    swap
    · rw [if_neg more]
      exact ⟨[], _, rfl, valid, (List.append_nil _).symm, (List.append_nil _).symm, rfl⟩
    rw [if_pos more]
    obtain ⟨attached, same⟩ := valid.withBack
    obtain ⟨_, before, back, room⟩ := valid.backWithSpace
    rcases split : v.backWithSpace with ⟨front, buf⟩
    rw [split] at attached same before back room
    dsimp only at attached same before back room ⊢
    by_cases batch : buf.writeSize < minBatch ∧ count - done ≥ minBatch
    · -- a read into a temporary slice, appended to the view
      rw [if_pos batch]
      rcases readOnce : read r.1 minBatch with ⟨s, tmp, err⟩
      have answered := progress r.1 minBatch (by decide)
      rw [readOnce] at answered
      simp only [logged, readOnce]
      obtain ⟨appended, grown⟩ := attached.append tmp
      rw [same] at grown
      by_cases failed : err.isSome
      · rw [if_pos failed]
        exact ⟨tmp, _, rfl, appended, grown, rfl, rfl⟩
      · rw [if_neg failed]
        have read_one : 0 < tmp.length := answered.resolve_left failed
        exact writeFromReader_continues grown
          (writeFromReaderLoop_spec fuel _ (s, r.2 ++ tmp) (done + tmp.length) appended (by omega))
    · -- a read straight into the back buffer's room
      rw [if_neg batch]
      rcases readOnce : read r.1 (min buf.writeSize (count - done)) with ⟨s, got, err⟩
      have fits : got.length ≤ buf.writeSize := by
        have := bounded r.1 (min buf.writeSize (count - done))
        rw [readOnce] at this
        exact Nat.le_trans this (Nat.min_le_left _ _)
      have answered := progress r.1 (min buf.writeSize (count - done)) (Nat.lt_min.mpr ⟨room, by omega⟩)
      rw [readOnce] at answered
      simp only [logged, readOnce]
      have written : View.Valid ⟨front ++ [buf.writeBytes got], v.size + got.length⟩ ∧
          View.contents ⟨front ++ [buf.writeBytes got], v.size + got.length⟩ = v.contents ++ got := by
        have grown : View.contents ⟨front ++ [buf.writeBytes got], v.size + got.length⟩ = v.contents ++ got := by
          rw [← same, contents_eq_flat, contents_eq_flat]
          simp [flat_append, Buffer.writeBytes]
        refine ⟨⟨fun b member => ?_, ?_⟩, grown⟩
        · rcases List.mem_append.mp member with early | last
          · exact attached.buffers b (List.mem_append_left _ early)
          · rw [List.mem_singleton.mp last]
            exact back.writeBytes fits
        · rw [grown, List.length_append, ← same, ← attached.size]
      rcases err with _ | (_ | code)
      · have read_one : 0 < got.length := answered.resolve_left Bool.false_ne_true
        exact writeFromReader_continues written.2
          (writeFromReaderLoop_spec fuel _ (s, r.2 ++ got) (done + got.length) written.1 (by omega))
      · exact ⟨got, _, rfl, written.1, written.2, rfl, rfl⟩
      · exact ⟨got, _, rfl, written.1, written.2, rfl, rfl⟩

theorem Valid.writeFromReader {v : View} (valid : v.Valid) (r : ρ × List UInt8) :
    ∃ got w, v.writeFromReader (logged read) r count = some w ∧ w.1.Valid ∧
      w.1.contents = v.contents ++ got ∧ w.2.1.2 = r.2 ++ got ∧ w.2.2.1 = got.length := by
  obtain ⟨got, w, looped, valid', contents, log, counted⟩ :=
    writeFromReaderLoop_spec read bounded progress count (count + 1) v r 0 valid (by omega)
  exact ⟨got, w, looped, valid', contents, log, by rw [counted, Nat.zero_add]⟩

end Reader

/-! ### Writing the bytes out -/

/-- A writer that takes every byte it is given, collecting them. -/
def collect (taken bytes : List UInt8) : List UInt8 × Nat × Option IoError :=
  (taken ++ bytes, bytes.length, none)

theorem flat_rest_eq {buf : Buffer} {rest : List Buffer} {l : List UInt8} {p : Nat}
    (at_ : flat (buf :: rest) = l.drop p) : flat rest = l.drop (p + buf.bytes.length) := by
  rw [← List.drop_drop, ← at_, flat_cons, List.drop_left]

section ReadToWriter

variable {v : View} (valid : v.Valid) (count : Nat) (taken : List UInt8)
include valid

theorem readToWriterLoop_collect : ∀ (data : List Buffer) (w : List UInt8) (done offset : Nat),
    (∀ buf ∈ data, buf.Valid) → w = taken ++ v.contents.take done → done ≤ count → done ≤ v.size →
    (done = count ∨ offset ≤ done ∧ flat data = v.contents.drop (done - offset)) →
    ∃ err, readToWriterLoop collect v count data w done offset =
      (taken ++ v.contents.take (min count v.size), min count v.size, err)
  | [], w, done, offset, _, written, below, inside, position => by
    have sized := valid.size
    -- with no buffers left, either `count` or the end of the view was reached
    have reached : done = min count v.size := by
      rcases position with rfl | ⟨_, ends⟩
      · omega
      · have := congrArg List.length ends
        simp only [flat_nil, List.length_nil, List.length_drop] at this
        omega
    exact ⟨none, by rw [readToWriterLoop, written, reached]⟩
  | buf :: rest, w, done, offset, buffers, written, below, inside, position => by
    have sized := valid.size
    have bufValid := buffers buf List.mem_cons_self
    have readSize := bufValid.readSize_eq
    have restValid : ∀ b ∈ rest, b.Valid := fun b member => buffers b (List.mem_cons_of_mem buf member)
    unfold readToWriterLoop
    by_cases more : done < count
    swap
    · exact ⟨none, by rw [if_neg more, written, show done = min count v.size by omega]⟩
    rw [if_pos more]
    obtain ⟨spill, starts⟩ := position.resolve_left (by omega)
    have restStarts := flat_rest_eq starts
    have bufInside : done - offset + buf.bytes.length ≤ v.size := by
      have := congrArg List.length starts
      simp only [flat_cons, List.length_append, List.length_drop] at this
      omega
    by_cases skip : buf.readSize ≤ offset
    · -- the batched read already took this buffer
      rw [if_pos skip]
      exact readToWriterLoop_collect rest w done (offset - buf.readSize) restValid written below inside
        (Or.inr ⟨by omega, by rw [restStarts]; congr 1; omega⟩)
    rw [if_neg skip]
    dsimp only
    by_cases batch : buf.readSize - offset < minBatch ∧ count - done ≥ minBatch ∧ v.size - done ≥ minBatch
    · -- a batched read of `minBatch` bytes from `done`, through `ReadAt`
      rw [if_pos batch]
      unfold minBatch at batch
      have taken8 : ((v.contents.drop done).take 8).length = 8 := by
        simp only [List.length_take, List.length_drop]
        omega
      have read : v.readAt minBatch done = ((v.contents.drop done).take 8, if done + 8 = v.size then some .eof else none) := by
        refine Prod.ext (valid.readAt minBatch done) ?_
        show (if (v.readAt 8 done).1.length < 8 ∨ done + (v.readAt 8 done).1.length = v.size then _ else _) = _
        rw [valid.readAt, taken8]
        simp
      have grown : w ++ (v.contents.drop done).take 8 = taken ++ v.contents.take (done + 8) := by
        rw [written, List.append_assoc, ← List.take_add]
      rw [read]
      simp only [collect, taken8, grown]
      by_cases ends : done + 8 = v.size
      · -- `ReadAt` reached the end: its `io.EOF` ends the loop
        rw [if_pos ends]
        exact ⟨some .eof, by rw [Option.isSome_some, if_pos rfl, show done + 8 = min count v.size by omega]⟩
      · rw [if_neg ends]
        exact readToWriterLoop_collect rest _ (done + 8) (8 - (buf.readSize - offset)) restValid rfl (by omega)
          (by omega) (Or.inr ⟨by omega, by rw [restStarts]; congr 1; omega⟩)
    · -- a write of the rest of the buffer, or of what is left of `count`
      rw [if_neg batch]
      generalize written' : (if buf.readSize - offset ≥ count - done then count - done else buf.readSize - offset) = sz
      have sizes : sz ≤ buf.readSize - offset ∧ sz ≤ count - done ∧ (sz = count - done ∨ sz = buf.readSize - offset) := by
        split at written' <;> omega
      have copied : ((buf.bytes.drop offset).take sz).length = sz := by
        simp only [List.length_take, List.length_drop]
        omega
      -- the bytes from `done` on start with the rest of this buffer
      have fromDone : v.contents.drop done = buf.bytes.drop offset ++ flat rest := by
        rw [show done = done - offset + offset by omega, ← List.drop_drop, ← starts, flat_cons,
          List.drop_append_of_le_length (by omega)]
      have grown : w ++ (buf.bytes.drop offset).take sz = taken ++ v.contents.take (done + sz) := by
        rw [written, List.append_assoc, List.take_add, fromDone,
          List.take_append_of_le_length (show sz ≤ (buf.bytes.drop offset).length by rw [List.length_drop]; omega)]
      simp only [collect, copied, grown, Option.isSome_none, Bool.false_eq_true, if_false]
      exact readToWriterLoop_collect rest _ (done + sz) 0 restValid rfl (by omega) (by omega)
        (by
          rcases sizes.2.2 with toCount | toEnd
          · exact Or.inl (by omega)
          · exact Or.inr ⟨Nat.zero_le _, by rw [restStarts]; congr 1; omega⟩)

theorem Valid.readToWriter_collect :
    ∃ err, v.readToWriter collect taken count = (taken ++ v.contents.take (min count v.size), min count v.size, err) :=
  readToWriterLoop_collect valid count taken v.data taken 0 0 valid.buffers (by rw [List.take_zero, List.append_nil])
    (Nat.zero_le _) (Nat.zero_le _) (Or.inr ⟨Nat.le_refl _, rfl⟩)

end ReadToWriter

/-- Every operation on a valid view keeps it valid and acts on the bytes it
holds as on a byte string; `ReadToWriter` so for a writer that takes every
byte, and `WriteFromReader`, which then ends, for any reader that returns no
more than it is asked for and a byte or an error when asked for one, the
bytes it returned being logged. -/
theorem view_refines_bytes {v : View} (valid : v.Valid) :
    (∀ count, ∃ v', v.trimFront count = some v' ∧ v'.Valid ∧ v'.contents = v.contents.drop count) ∧
    (∀ length, (v.truncate length).Valid ∧ (v.truncate length).contents = v.contents.take length) ∧
    (∀ length, (v.grow length).Valid ∧
      (v.grow length).contents = v.contents ++ List.replicate (length - v.contents.length) 0) ∧
    (∀ data, (v.prepend data).Valid ∧ (v.prepend data).contents = data ++ v.contents) ∧
    (∀ data, (v.append data).Valid ∧ (v.append data).contents = v.contents ++ data) ∧
    (∀ other : View, other.Valid → (v.merge other).1.Valid ∧
      (v.merge other).1.contents = v.contents ++ other.contents ∧ (v.merge other).2.contents = [] ∧
      (v.merge other).2.size = 0) ∧
    (v.copy.Valid ∧ v.copy.contents = v.contents) ∧ v.flatten = v.contents ∧
    (∀ length offset, (v.readAt length offset).1 = (v.contents.drop offset).take length) ∧
    (∀ taken count, ∃ err,
      v.readToWriter collect taken count = (taken ++ v.contents.take (min count v.size), min count v.size, err)) ∧
    (∀ {ρ : Type} (read : ρ → Nat → ρ × List UInt8 × Option IoError), (∀ s k, (read s k).2.1.length ≤ k) →
      (∀ s k, 0 < k → (read s k).2.2.isSome = true ∨ 0 < (read s k).2.1.length) →
      ∀ (r : ρ × List UInt8) (count : Nat), ∃ got w, v.writeFromReader (logged read) r count = some w ∧
        w.1.Valid ∧ w.1.contents = v.contents ++ got ∧ w.2.1.2 = r.2 ++ got ∧ w.2.2.1 = got.length) :=
  ⟨valid.trimFront, valid.truncate, valid.grow, valid.prepend, valid.append, fun _ otherValid => valid.merge otherValid,
    valid.copy, flatten_eq_contents v, valid.readAt, fun taken count => valid.readToWriter_collect count taken,
    fun read bounded progress r count => valid.writeFromReader read bounded progress count r⟩

/-- On the empty view: appending three bytes gives them back, and it
flattens to nothing. -/
theorem view_refines_bytes_from_empty :
    View.Valid ⟨[], 0⟩ ∧ (View.append ⟨[], 0⟩ [1, 2, 3]).contents = [1, 2, 3] ∧ View.flatten ⟨[], 0⟩ = [] :=
  have empty : View.Valid ⟨[], 0⟩ := ⟨fun _ member => absurd member List.not_mem_nil, rfl⟩
  have refines := view_refines_bytes empty
  ⟨empty, (refines.2.2.2.2.1 [1, 2, 3]).2, refines.2.2.2.2.2.2.2.1⟩

/-- A valid view of two buffers, the first holding only its last byte (as an
`Append` of 8152 bytes and a `TrimFront` of 8143 leave it), and a writer that
takes nothing and fails. `ReadToWriter` of 9 bytes batches the first 8
through `ReadAt`, drops the writer's count and error, and reports 8 bytes
written. -/
theorem readToWriter_counts_refused_batch :
    View.Valid ⟨[⟨[1], 8143, 8144⟩, ⟨[2, 3, 4, 5, 6, 7, 8, 9], 0, 8⟩], 9⟩ ∧
      View.readToWriter (fun (taken _ : List UInt8) => (taken, 0, some (IoError.failed 0)))
        ⟨[⟨[1], 8143, 8144⟩, ⟨[2, 3, 4, 5, 6, 7, 8, 9], 0, 8⟩], 9⟩ [] 9 = ([], 8, some (.failed 0)) := by
  refine ⟨⟨fun buf member => ?_, rfl⟩, by decide⟩
  simp only [List.mem_cons, List.not_mem_nil, or_false] at member
  rcases member with rfl | rfl <;> exact ⟨rfl, by decide, by decide⟩

end View

end Cijitter.BufferView
