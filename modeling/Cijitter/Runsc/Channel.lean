import Cijitter.Lib.GoJson
import Cijitter.Lib.Run
import Cijitter.Maid.TargetAddr

/-! The control channel from the monitor to the sandbox (`runsc/main.go`):
`notifier` JSON-encodes each string from `msgChan` onto the pipe (fd 11),
and `listener` builds a new `json.Decoder` on the other end (fd 13) for
every message, passing each decoded value to `maid.Listen_target_addrs`.

A decoder reads what the pipe holds, takes the first value of its buffer,
and is dropped with everything it buffered after that value. The pipe may
return any non-empty part of what it holds to a read, so how the writes are
cut and joined into reads is an argument of the read event. -/

set_option autoImplicit false

namespace Cijitter.Runsc

open GoJson Maid StepRun

/-- The pipe, the listener's current decoder, and what the listener has done:
its `Read` calls, the values it passed on, and `TAddr`. -/
structure Channel where
  pipe : List Char
  closed : Bool
  buffer : List Char
  reads : Nat
  calls : List Value
  tAddr : TargetAddr

/-- `notifier` sends a message, the listener's decoder reads `count`
characters (at least one, at most what the pipe holds), or the monitor's end
of the pipe is closed. -/
inductive ChannelEvent where
  | notify (msg : List Char)
  | read (count : Nat)
  | close

/-- `maid.Listen_target_addrs(fmt.Sprintf("%v", data))`. The `%v` text of a
value that is not a string (a number, `true`, `false`, `<nil>`, `[...]` or
`map[...]`) never has a hexadecimal first field, so `Listen_target_addrs`
returns at once; a panic is modelled as no change. -/
def listenValue (tAddr : TargetAddr) : Value → TargetAddr
  | .string text =>
      match listenTargetAddrs tAddr text with
      | .ok tAddr => tAddr
      | .error _ => tAddr
  | .other => tAddr

/-- The listener's decoder after its buffer grew: a value ends this
`Decode`, which passes it on and drops the decoder; a failure drops the
decoder; otherwise `Decode` reads again. -/
def afterRead (s : Channel) (eof : Bool) : Channel :=
  match decode eof s.buffer with
  | .value value =>
      { s with buffer := [], calls := s.calls ++ [value], tAddr := listenValue s.tAddr value }
  | .failed => { s with buffer := [] }
  | .needMore => s

/-- One event. A read of an empty pipe blocks while the monitor's end is
open and returns `io.EOF` once it is closed. -/
def channelStep (s : Channel) : ChannelEvent → Channel
  | .notify msg => if s.closed then s else { s with pipe := s.pipe ++ encodeString msg }
  | .read count =>
      if s.pipe = [] then
        if s.closed then afterRead { s with reads := s.reads + 1 } true else s
      else
        let taken := min (max count 1) s.pipe.length
        afterRead { s with pipe := s.pipe.drop taken, buffer := s.buffer ++ s.pipe.take taken,
                           reads := s.reads + 1 } false
  | .close => { s with closed := true }

def Channel.init : Channel :=
  ⟨[], false, [], 0, [], TargetAddr.init⟩

theorem length_encodeString_pos (msg : List Char) : 0 < (encodeString msg).length := by
  simp [encodeString]

theorem read_nonempty (s : Channel) (count : Nat) (nonempty : s.pipe ≠ []) (positive : 0 < count) :
    channelStep s (.read count) =
      afterRead { s with pipe := s.pipe.drop count, buffer := s.buffer ++ s.pipe.take count,
                         reads := s.reads + 1 } false := by
  have taken : max count 1 = count := by omega
  simp only [channelStep, nonempty, if_false, taken, ← List.take_eq_take_min,
    ← List.drop_eq_drop_min]

theorem drop_encodeString_append_ne_nil (msg more : List Char) (j : Nat)
    (inside : j < (encodeString msg).length) :
    (encodeString msg).drop j ++ more ≠ [] := by
  apply List.append_ne_nil_of_left_ne_nil
  simp only [ne_eq, List.drop_eq_nil_iff, not_le]
  exact inside

theorem read_inside_message (s : Channel) (msg more : List Char) (j n : Nat)
    (held : s.buffer = (encodeString msg).take j) (queued : s.pipe = (encodeString msg).drop j ++ more)
    (positive : 0 < n) (inside : j + n < (encodeString msg).length) :
    channelStep s (.read n) =
      { s with pipe := (encodeString msg).drop (j + n) ++ more,
               buffer := (encodeString msg).take (j + n), reads := s.reads + 1 } := by
  have rest : ((encodeString msg).drop j ++ more).drop n = (encodeString msg).drop (j + n) ++ more := by
    rw [List.drop_append_of_le_length (by simp only [List.length_drop]; omega), List.drop_drop]
  have buffered : (encodeString msg).take j ++ ((encodeString msg).drop j ++ more).take n =
      (encodeString msg).take (j + n) := by
    rw [List.take_append_of_le_length (by simp only [List.length_drop]; omega), ← List.take_add]
  rw [read_nonempty s n
    (by rw [queued]; exact drop_encodeString_append_ne_nil msg more j (by omega)) positive]
  simp only [afterRead, queued, held, rest, buffered, decode_take_encodeString msg (j + n) inside]

theorem read_completing_message (s : Channel) (msg more : List Char) (j n : Nat)
    (held : s.buffer = (encodeString msg).take j) (queued : s.pipe = (encodeString msg).drop j ++ more)
    (positive : 0 < n) (completes : j + n = (encodeString msg).length) :
    channelStep s (.read n) =
      { s with pipe := more, buffer := [], reads := s.reads + 1, calls := s.calls ++ [.string msg],
               tAddr := listenValue s.tAddr (.string msg) } := by
  have consumed : ((encodeString msg).drop j).length = n := by
    rw [List.length_drop]
    omega
  have buffered : (encodeString msg).take j ++ ((encodeString msg).drop j ++ more).take n =
      encodeString msg := by
    rw [← consumed, List.take_left, List.take_append_drop]
  have decoded : decode false (encodeString msg) = .value (.string msg) := by
    simpa using decode_encodeString false msg []
  rw [read_nonempty s n
    (by rw [queued]; exact drop_encodeString_append_ne_nil msg more j (by omega)) positive]
  simp only [afterRead, queued, held, buffered, decoded]
  rw [← consumed, List.drop_left]

theorem listener_reads_message (msg more : List Char) (counts : List Nat)
    (positive : ∀ n ∈ counts, 0 < n) :
    ∀ (s : Channel) (j : Nat), s.buffer = (encodeString msg).take j →
      s.pipe = (encodeString msg).drop j ++ more → j < (encodeString msg).length →
      j + counts.sum = (encodeString msg).length →
      run channelStep s (counts.map .read) =
        { s with pipe := more, buffer := [], reads := s.reads + counts.length,
                 calls := s.calls ++ [.string msg], tAddr := listenValue s.tAddr (.string msg) } := by
  induction counts with
  | nil => intro s j _ _ started covers; simp at covers; omega
  | cons n counts ih =>
      intro s j held queued started covers
      have positiveN : 0 < n := positive n List.mem_cons_self
      have positiveRest : ∀ m ∈ counts, 0 < m := fun m mem => positive m (List.mem_cons_of_mem n mem)
      rw [List.sum_cons] at covers
      rw [List.map_cons, run_cons]
      cases counts with
      | nil =>
          rw [read_completing_message s msg more j n held queued positiveN (by simpa using covers)]
          simp
      | cons m counts =>
          have positiveM : 0 < m := positiveRest m List.mem_cons_self
          have inside : j + n < (encodeString msg).length := by
            rw [List.sum_cons] at covers
            omega
          rw [read_inside_message s msg more j n held queued positiveN inside,
            ih positiveRest _ (j + n) rfl rfl inside (by omega)]
          simp [Nat.add_assoc, Nat.add_comm 1]

/-- While no read of the listener runs past the end of the message it is
in, every message is passed on once, in order, however each one is cut into
reads; `TAddr` is what `Listen_target_addrs` makes of them in turn. -/
theorem listener_delivers_split_reads (s : Channel) (plan : List (List Char × List Nat))
    (idle : s.buffer = []) (queued : s.pipe = plan.flatMap fun p => encodeString p.1)
    (cuts : ∀ p ∈ plan, (∀ n ∈ p.2, 0 < n) ∧ p.2.sum = (encodeString p.1).length) :
    run channelStep s (plan.flatMap fun p => p.2.map .read) =
      { s with pipe := [], reads := s.reads + (plan.map fun p => p.2.length).sum,
               calls := s.calls ++ plan.map fun p => .string p.1,
               tAddr := plan.foldl (fun tAddr p => listenValue tAddr (.string p.1)) s.tAddr } := by
  induction plan generalizing s with
  | nil =>
      rw [List.flatMap_nil] at queued
      cases s
      simp_all
  | cons p plan ih =>
      obtain ⟨positive, covers⟩ := cuts p List.mem_cons_self
      rw [List.flatMap_cons] at queued
      rw [List.flatMap_cons, run_append,
        listener_reads_message p.1 _ p.2 positive s 0 (by simpa using idle) (by simpa using queued)
          (length_encodeString_pos p.1) (by omega),
        ih _ rfl rfl fun q mem => cuts q (List.mem_cons_of_mem p mem)]
      simp [Nat.add_assoc, idle]

/-- The start and stop commands of one delay window, as `monitor` sends them. -/
def windowCommands : List (List Char) :=
  ["0x7f0000 500".toList, "0x00000 0".toList]

theorem listener_delivers_window_in_pieces :
    (run channelStep { Channel.init with pipe := windowCommands.flatMap encodeString }
        ((windowCommands.zip [[5, 10], [3, 9]]).flatMap fun p => p.2.map .read)).tAddr.flag = false := by
  rw [listener_delivers_split_reads _ (windowCommands.zip [[5, 10], [3, 9]]) rfl (by decide) (by decide)]
  decide

/-- A read that takes a whole message and more: its decoder passes on the
message and is dropped with what it read past it, which no later decoder
sees. -/
theorem read_across_messages (s : Channel) (msg more : List Char) (n : Nat) (idle : s.buffer = [])
    (queued : s.pipe = encodeString msg ++ more) (across : (encodeString msg).length < n) :
    channelStep s (.read n) =
      { s with pipe := more.drop (n - (encodeString msg).length), reads := s.reads + 1,
               calls := s.calls ++ [.string msg], tAddr := listenValue s.tAddr (.string msg) } := by
  have read : (encodeString msg ++ more).take n =
      encodeString msg ++ more.take (n - (encodeString msg).length) := by
    rw [List.take_append, List.take_of_length_le (by omega)]
  have rest : (encodeString msg ++ more).drop n = more.drop (n - (encodeString msg).length) := by
    rw [List.drop_append, List.drop_of_length_le (by omega), List.nil_append]
  rw [read_nonempty s n
    (by rw [queued]; exact drop_encodeString_append_ne_nil msg more 0 (length_encodeString_pos msg))
    (by omega)]
  simp only [afterRead, queued, idle, List.nil_append, read, rest, decode_encodeString]

theorem read_across_window :
    channelStep { Channel.init with pipe := windowCommands.flatMap encodeString } (.read 64) =
      { Channel.init with reads := 1, calls := [.string "0x7f0000 500".toList],
                          tAddr := listenValue TargetAddr.init (.string "0x7f0000 500".toList) } := by
  rw [read_across_messages _ "0x7f0000 500".toList (encodeString "0x00000 0".toList) 64 rfl rfl
    (by decide)]
  rfl

/-- One delay window of `monitor`: the start command for a page and the stop
command, which reach the pipe before the listener's next read; then the
monitor's end is closed. -/
def coalescedWindow : List ChannelEvent :=
  [.notify "0x7f0000 500".toList, .notify "0x00000 0".toList, .read 64, .close, .read 1, .read 1]

theorem stop_command_lost :
    (run channelStep Channel.init coalescedWindow).calls = [.string "0x7f0000 500".toList] ∧
      (run channelStep Channel.init coalescedWindow).tAddr.flag = true ∧
      (run channelStep Channel.init coalescedWindow).reads = 3 := by
  decide

end Cijitter.Runsc
