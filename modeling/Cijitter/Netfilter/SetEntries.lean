import Cijitter.Stack.Iptables
import Cijitter.Lib.Bytes

/-! `setsockopt(IPT_SO_SET_REPLACE)` (`pkg/sentry/socket/netfilter`).
`SetEntries` reads an `ipt_replace` header and its entries from the user's
bytes, each entry an `ipt_entry`, its matchers and its target, into a table of
rules; it points each hook of the table at the rule at the hook's byte offset,
checks the hook's underflow rule, records the user chains, turns the byte
offsets of jumps into rule numbers, and replaces the table in the stack.

The ABI structs are read little-endian, field by field, as `binary.Unmarshal`
reads them. The matcher extensions are a `Registry`. A parse error of the
source is `none`: `SetEntries` only logs it (logging is off) and returns
`ErrInvalidArgument`. -/

set_option autoImplicit false

namespace Cijitter.Netfilter

open Iptables

inductive Error where
  | ErrInvalidArgument
  deriving DecidableEq, Repr

def sizeOfIPTReplace : Nat := 96

def sizeOfIPTEntry : Nat := 112

def sizeOfXTEntryMatch : Nat := 32

def sizeOfXTEntryTarget : Nat := 32

def sizeOfXTStandardTarget : Nat := 40

def sizeOfXTErrorTarget : Nat := 64

def sizeOfXTRedirectTarget : Nat := 56

/-- `width` bytes at `offset`. -/
def slice (bytes : List UInt8) (offset width : Nat) : List UInt8 :=
  (bytes.drop offset).take width

/-- The little-endian unsigned field of `width` bytes at `offset`. -/
def field (bytes : List UInt8) (offset width : Nat) : Nat :=
  Bytes.leValue (slice bytes offset width)

/-- `goString`: the bytes before the first NUL. -/
def goString (cstring : List UInt8) : List UInt8 :=
  cstring.takeWhile (· != 0)

/-- `errorTargetName`, "ERROR". -/
def errorTargetName : List UInt8 := [69, 82, 82, 79, 82]

/-- `redirectTargetName`, "REDIRECT". -/
def redirectTargetName : List UInt8 := [82, 69, 68, 73, 82, 69, 67, 84]

/-! ## The ABI structs -/

/-- The fields of `linux.IPTReplace` that `SetEntries` reads. -/
structure IPTReplace where
  name : List UInt8
  numEntries : Nat
  hookEntry : List Nat
  underflow : List Nat
  deriving DecidableEq, Repr

def IPTReplace.unmarshal (buf : List UInt8) : IPTReplace :=
  ⟨slice buf 0 32, field buf 36 4, (List.range 5).map fun i => field buf (44 + 4 * i) 4,
    (List.range 5).map fun i => field buf (64 + 4 * i) 4⟩

structure IPTIP where
  src : List UInt8
  dst : List UInt8
  srcMask : List UInt8
  dstMask : List UInt8
  inputInterface : List UInt8
  outputInterface : List UInt8
  inputInterfaceMask : List UInt8
  outputInterfaceMask : List UInt8
  protocol : Nat
  flags : UInt8
  inverseFlags : UInt8
  deriving DecidableEq, Repr

def IPTIP.unmarshal (buf : List UInt8) : IPTIP :=
  ⟨slice buf 0 4, slice buf 4 4, slice buf 8 4, slice buf 12 4, slice buf 16 16, slice buf 32 16,
    slice buf 48 16, slice buf 64 16, field buf 80 2, buf.getD 82 0, buf.getD 83 0⟩

/-- The fields of `linux.IPTEntry` that `SetEntries` reads. -/
structure IPTEntry where
  ip : IPTIP
  targetOffset : Nat
  nextOffset : Nat
  deriving DecidableEq, Repr

def IPTEntry.unmarshal (buf : List UInt8) : IPTEntry :=
  ⟨IPTIP.unmarshal buf, field buf 88 2, field buf 90 2⟩

/-! ## Filters, matchers and targets -/

def iptInvViaOut : UInt8 := 0x02

def iptInvSrcip : UInt8 := 0x08

def iptInvDstip : UInt8 := 0x10

def containsUnsupportedFields (iptip : IPTIP) : Bool :=
  let inverseMask := iptInvDstip ||| iptInvSrcip ||| iptInvViaOut
  iptip.inputInterface != List.replicate 16 0 ||
    iptip.inputInterfaceMask != List.replicate 16 0 ||
    iptip.flags != 0 ||
    iptip.inverseFlags &&& ~~~inverseMask != 0

/-- `filterFromIPTIP`. Its length checks are of `[4]byte` arrays, which hold. -/
def filterFromIPTIP (iptip : IPTIP) : Option IPHeaderFilter :=
  if containsUnsupportedFields iptip then none
  else
    some {
      protocol := iptip.protocol
      dst := iptip.dst
      dstMask := iptip.dstMask
      dstInvert := iptip.inverseFlags &&& iptInvDstip != 0
      src := iptip.src
      srcMask := iptip.srcMask
      srcInvert := iptip.inverseFlags &&& iptInvSrcip != 0
      outputInterface := goString iptip.outputInterface
      outputInterfaceMask := goString iptip.outputInterfaceMask
      outputInterfaceInvert := iptip.inverseFlags &&& iptInvViaOut != 0 }

/-- `emptyFilter`, which an underflow rule must have. -/
def emptyFilter : IPHeaderFilter :=
  ⟨0, [0, 0, 0, 0], [0, 0, 0, 0], false, [0, 0, 0, 0], [0, 0, 0, 0], false, [], [], false⟩

/-- `matchMakers`: `unmarshal name data filter` is the matcher the extension
registered under `name` makes of `data`, `none` for no such extension or bad data. -/
structure Registry (M : Type) where
  unmarshal : List UInt8 → List UInt8 → IPHeaderFilter → Option M

variable {M : Type}

/-- `parseMatchers`: each turn reads one `xt_entry_match` of `MatchSize ≥ 32`
bytes, so `optVal.length` turns are enough. -/
def parseMatchersLoop (reg : Registry M) (filter : IPHeaderFilter) :
    Nat → List UInt8 → Option (List M)
  | _, [] => some []
  | 0, _ :: _ => none
  | fuel + 1, optVal@(_ :: _) =>
    if optVal.length < sizeOfXTEntryMatch then none
    else
      let matchSize := field optVal 0 2
      if matchSize < sizeOfXTEntryMatch then none
      else if optVal.length < matchSize then none
      else do
        let matcher ← reg.unmarshal (goString (slice optVal 2 29))
          (slice optVal sizeOfXTEntryMatch (matchSize - sizeOfXTEntryMatch)) filter
        let rest ← parseMatchersLoop reg filter fuel (optVal.drop matchSize)
        return matcher :: rest

def parseMatchers (reg : Registry M) (filter : IPHeaderFilter) (optVal : List UInt8) :
    Option (List M) :=
  parseMatchersLoop reg filter optVal.length optVal

def nfDrop : Int := 0

def nfAccept : Int := 1

/-- `NF_RETURN`, `-NF_REPEAT - 1`. -/
def nfReturn : Int := -5

def translateToStandardTarget (val : Int) : Option Target :=
  if val = -nfAccept - 1 then some .acceptTarget
  else if val = -nfDrop - 1 then some .dropTarget
  else if val = nfReturn then some .returnTarget
  -- QUEUE and every other verdict are refused
  else none

/-- `binary.BigEndian.PutUint16` read back little-endian: the two bytes swapped. -/
def swapBytes (port : Nat) : Nat :=
  (port % 256) * 256 + port / 256 % 256

def tcpProtocolNumber : Nat := 6

def udpProtocolNumber : Nat := 17

/-- `NF_NAT_RANGE_PROTO_SPECIFIED`. -/
def nfNatRangeProtoSpecified : Nat := 2

def parseRedirectTarget (filter : IPHeaderFilter) (optVal : List UInt8) : Option Target :=
  if optVal.length < sizeOfXTRedirectTarget then none
  else if filter.protocol ≠ tcpProtocolNumber ∧ filter.protocol ≠ udpProtocolNumber then none
  -- `NfRange`: `RangeSize`, then `Flags`, `MinIP`, `MaxIP`, `MinPort`, `MaxPort`
  else if field optVal 32 4 ≠ 1 then none
  else if field optVal 36 4 &&& nfNatRangeProtoSpecified = 0 then none
  else if field optVal 48 2 ≠ field optVal 50 2 then none
  else
    some (.redirectTarget ⟨true, slice optVal 40 4, slice optVal 44 4,
      swapBytes (field optVal 48 2), swapBytes (field optVal 50 2)⟩)

def parseTarget (filter : IPHeaderFilter) (optVal : List UInt8) : Option Target :=
  if optVal.length < sizeOfXTEntryTarget then none
  else
    let name := goString (slice optVal 2 29)
    if name = [] then
      -- a standard target: a verdict, or the byte offset of a jump
      if optVal.length ≠ sizeOfXTStandardTarget then none
      else
        let verdict := Bytes.signedValue 32 (field optVal 32 4)
        if verdict < 0 then translateToStandardTarget verdict
        else some (.jumpTarget verdict.toNat 0)
    else if name = errorTargetName then
      if optVal.length ≠ sizeOfXTErrorTarget then none
      else
        -- an ERROR target, or the head of the user chain it names
        let errorName := goString (slice optVal 32 30)
        if errorName = errorTargetName then some .errorTarget
        else some (.userChainTarget errorName)
    else if name = redirectTargetName then parseRedirectTarget filter optVal
    else none

/-! ## SetEntries -/

/-- What the loop over the entries has built: the rules, the map from the byte
offset of each entry to its rule number, and the offset of the next entry. -/
structure Parsed (M : Type) where
  rules : List (Rule M)
  offsets : GoMap Nat Int
  offset : Nat
  deriving DecidableEq, Repr

/-- One turn of the loop over the entries, on the bytes left. -/
def parseEntry (reg : Registry M) (entryIdx : Nat) (parsed : Parsed M) (optVal : List UInt8) :
    Option (Parsed M × List UInt8) := do
  if optVal.length < sizeOfIPTEntry then none
  let entry := IPTEntry.unmarshal (optVal.take sizeOfIPTEntry)
  let initialOptValLen := optVal.length
  let optVal := optVal.drop sizeOfIPTEntry
  if entry.targetOffset < sizeOfIPTEntry then none
  let filter ← filterFromIPTIP entry.ip
  let matchersSize := entry.targetOffset - sizeOfIPTEntry
  if optVal.length < matchersSize then none
  let matchers ← parseMatchers reg filter (optVal.take matchersSize)
  let optVal := optVal.drop matchersSize
  -- a `uint16` difference
  let targetSize := (entry.nextOffset + 2 ^ 16 - entry.targetOffset) % 2 ^ 16
  if optVal.length < targetSize then none
  let target ← parseTarget filter (optVal.take targetSize)
  let optVal := optVal.drop targetSize
  let parsed : Parsed M :=
    ⟨parsed.rules ++ [⟨filter, target, matchers⟩], parsed.offsets.set parsed.offset entryIdx,
      (parsed.offset + entry.nextOffset) % 2 ^ 32⟩
  if initialOptValLen - optVal.length ≠ entry.nextOffset then none
  return (parsed, optVal)

/-- The loop over the entries, from `entryIdx` with `remaining` entries to go. -/
def parseEntries (reg : Registry M) : Nat → Nat → Parsed M → List UInt8 → Option (Parsed M)
  | 0, _, parsed, _ => some parsed
  | remaining + 1, entryIdx, parsed, optVal => do
    let (parsed, optVal) ← parseEntry reg entryIdx parsed optVal
    parseEntries reg remaining (entryIdx + 1) parsed optVal

def hookUnset : Int := -1

def emptyFilterTable : Table M :=
  ⟨[], [(.input, hookUnset), (.forward, hookUnset), (.output, hookUnset)],
    [(.input, hookUnset), (.forward, hookUnset), (.output, hookUnset)], []⟩

def emptyNatTable : Table M :=
  ⟨[], [(.prerouting, hookUnset), (.input, hookUnset), (.output, hookUnset),
      (.postrouting, hookUnset)],
    [(.prerouting, hookUnset), (.input, hookUnset), (.output, hookUnset),
      (.postrouting, hookUnset)], []⟩

/-- `hookFromLinux`, on the indices of `HookEntry`. -/
def hookFromLinux : Fin 5 → Hook
  | 0 => .prerouting
  | 1 => .input
  | 2 => .forward
  | 3 => .output
  | 4 => .postrouting

def validUnderflow (rule : Rule M) : Bool :=
  rule.matchers.isEmpty && rule.filter == emptyFilter &&
    match rule.target with
    | .acceptTarget | .dropTarget => true
    | _ => false

def isUnconditionalAccept (rule : Rule M) : Bool :=
  validUnderflow rule && rule.target == .acceptTarget

/-- One turn of the loop over the hooks: the hook's chain and underflow. The
loop over `offsets` in the source finds the one entry at each offset. -/
def setHook (replace : IPTReplace) (offsets : GoMap Nat Int) (table : Table M) (hook : Fin 5) :
    Except Error (Table M) := do
  if table.validHooks &&& 1 <<< hook.val = 0 then return table
  let hk := hookFromLinux hook
  let table := match offsets.lookup (replace.hookEntry.getD hook 0) with
    | some ruleIdx => { table with builtinChains := table.builtinChains.set hk ruleIdx }
    | none => table
  let table ← match offsets.lookup (replace.underflow.getD hook 0) with
    | some ruleIdx =>
      -- `offsets` holds rule numbers
      if (table.ruleAt ruleIdx).all validUnderflow then
        pure { table with underflows := table.underflows.set hk ruleIdx }
      else throw .ErrInvalidArgument
    | none => pure table
  if (table.builtinChains.lookup hk).getD 0 = hookUnset then throw .ErrInvalidArgument
  if (table.underflows.lookup hk).getD 0 = hookUnset then throw .ErrInvalidArgument
  return table

/-- The loop that records the user chains: a chain's head must not be the last
rule and must have no matchers. -/
def addUserChains (table : Table M) : Except Error (Table M) :=
  List.foldlM (fun table ruleIdx =>
    match table.rules[ruleIdx]? with
    | some (Rule.mk _ (.userChainTarget name) matchers) =>
      if ruleIdx = table.rules.length - 1 then throw .ErrInvalidArgument
      else if matchers ≠ [] then throw .ErrInvalidArgument
      else pure { table with userChains := table.userChains.set name (ruleIdx + 1) }
    | _ => pure table) table (List.range table.rules.length)

/-- The loop that points each jump at the rule at its byte offset. -/
def setJumps (offsets : GoMap Nat Int) (table : Table M) : Except Error (Table M) :=
  List.foldlM (fun table ruleIdx =>
    match table.rules[ruleIdx]? with
    | some (Rule.mk filter (.jumpTarget offset _) matchers) =>
      match offsets.lookup offset with
      | some jumpTo =>
        pure { table with rules := table.rules.set ruleIdx ⟨filter, .jumpTarget offset jumpTo, matchers⟩ }
      | none => throw .ErrInvalidArgument
    | _ => pure table) table (List.range table.rules.length)

/-- The FORWARD and POSTROUTING chains must accept everything. -/
def checkUnsupportedHooks (table : Table M) : Except Error Unit :=
  table.builtinChains.forM fun (hook, ruleIdx) =>
    if (hook = .forward ∨ hook = .postrouting) ∧ !(table.ruleAt ruleIdx).all isUnconditionalAccept then
      throw .ErrInvalidArgument
    else pure ()

/-- `SetEntries`: the stack's tables once the table is replaced. -/
def setEntries (reg : Registry M) (it : IPTables M) (optVal : List UInt8) :
    Except Error (IPTables M) := do
  if optVal.length < sizeOfIPTReplace then throw .ErrInvalidArgument
  let replace := IPTReplace.unmarshal (optVal.take sizeOfIPTReplace)
  let optVal := optVal.drop sizeOfIPTReplace
  let name := goString replace.name
  let table : Table M ←
    if name = tablenameFilter then pure emptyFilterTable
    else if name = tablenameNat then pure emptyNatTable
    else throw .ErrInvalidArgument
  let some parsed := parseEntries reg replace.numEntries 0 ⟨[], [], 0⟩ optVal
    | throw .ErrInvalidArgument
  let table := { table with rules := parsed.rules }
  let table ← (List.finRange 5).foldlM (setHook replace parsed.offsets) table
  let table ← addUserChains table
  let table ← setJumps parsed.offsets table
  checkUnsupportedHooks table
  -- no check for loops, for chains without a final rule or for jumps to a chain's head
  return it.replaceTable name table

/-! ## Rulesets that `SetEntries` accepts -/

theorem emptyFilter_match (hdr : IPv4Header) (hook : Hook) (nicName : List UInt8) :
    emptyFilter.match hdr hook nicName = some true := by
  have zeros : List.replicate 4 (0 : UInt8) = [0, 0, 0, 0] := rfl
  have dst := filterAddressLoop_zeros hdr.destinationAddress.1
  have src := filterAddressLoop_zeros hdr.sourceAddress.1
  rw [hdr.destinationAddress.2, zeros] at dst
  rw [hdr.sourceAddress.2, zeros] at src
  simp [IPHeaderFilter.match, emptyFilter, filterAddress, dst, src]

def le16 (value : Nat) : List UInt8 := Bytes.leBytes 2 value

def le32 (value : Nat) : List UInt8 := Bytes.leBytes 4 value

/-- An `ipt_replace` for the filter table. -/
def replaceBytes (numEntries : Nat) (hookEntry underflow : List Nat) : List UInt8 :=
  tablenameFilter ++ List.replicate 26 0 ++ le32 0 ++ le32 numEntries ++ le32 0 ++
    hookEntry.flatMap le32 ++ underflow.flatMap le32 ++ le32 0 ++ List.replicate 8 0

/-- An `ipt_entry` with a zero `ipt_ip` and no matcher. -/
def entryBytes (nextOffset : Nat) : List UInt8 :=
  List.replicate 88 0 ++ le16 sizeOfIPTEntry ++ le16 nextOffset ++ List.replicate 20 0

def standardTargetBytes (verdict : Int) : List UInt8 :=
  le16 sizeOfXTStandardTarget ++ List.replicate 30 0 ++ le32 (verdict % 2 ^ 32).toNat ++
    List.replicate 4 0

def errorTargetBytes (name : List UInt8) : List UInt8 :=
  le16 sizeOfXTErrorTarget ++ errorTargetName ++ List.replicate 25 0 ++ name ++
    List.replicate (32 - name.length) 0

def chainName : List UInt8 := [99, 104, 97, 105, 110]

/-- The INPUT chain starts at the head of the user chain `chain`; FORWARD and
OUTPUT start at an ACCEPT, which is every hook's underflow. -/
def userChainRuleset : List UInt8 :=
  replaceBytes 2 [0, 0, 176, 176, 0] [0, 176, 176, 176, 0] ++
    entryBytes 176 ++ errorTargetBytes chainName ++ entryBytes 152 ++ standardTargetBytes (-2)

def userChainTable {M : Type} : Table M :=
  ⟨[⟨emptyFilter, .userChainTarget chainName, []⟩, ⟨emptyFilter, .acceptTarget, []⟩],
    [(.output, 1), (.forward, 1), (.input, 0)], [(.output, 1), (.forward, 1), (.input, 1)],
    [(chainName, 1)]⟩

/-- The INPUT chain starts at a rule that jumps to its own byte offset, 0. -/
def jumpLoopRuleset : List UInt8 :=
  replaceBytes 2 [0, 0, 152, 152, 0] [0, 152, 152, 152, 0] ++
    entryBytes 152 ++ standardTargetBytes 0 ++ entryBytes 152 ++ standardTargetBytes (-2)

def jumpLoopTable {M : Type} : Table M :=
  ⟨[⟨emptyFilter, .jumpTarget 0 0, []⟩, ⟨emptyFilter, .acceptTarget, []⟩],
    [(.output, 1), (.forward, 1), (.input, 0)], [(.output, 1), (.forward, 1), (.input, 1)], []⟩

/-- A registry with no matcher extension: the rulesets above hold no matcher,
so none is asked for. -/
def noMatchers : Registry Empty := ⟨fun _ _ _ => none⟩

theorem nat_accepts_input {P : Type} (env : Env Empty P) (table : Table Empty) (pkt : P)
    (nicName : List UInt8) (fuel : Nat) :
    checkChain env .input ((defaultTables.replaceTable tablenameFilter table).tableFor tablenameNat)
      nicName (fuel + 1) 1 pkt = .returns (.chainAccept, pkt) := by
  rw [IPTables.tableFor_replaceTable_of_ne _ _ (by decide)]
  exact checkChain_accept (by decide)
    ((checkRule_of_matched rfl (IPHeaderFilter.zero_match _ _ _) rfl).trans rfl)

set_option maxRecDepth 100000 in
theorem userChainRuleset_loads :
    setEntries noMatchers defaultTables userChainRuleset =
      .ok (defaultTables.replaceTable tablenameFilter userChainTable) := by
  decide +kernel

set_option maxRecDepth 100000 in
theorem jumpLoopRuleset_loads :
    setEntries noMatchers defaultTables jumpLoopRuleset =
      .ok (defaultTables.replaceTable tablenameFilter jumpLoopTable) := by
  decide +kernel

theorem setEntries_accepts_unsafe_rulesets :
    setEntries noMatchers defaultTables userChainRuleset =
        .ok (defaultTables.replaceTable tablenameFilter userChainTable) ∧
      (∀ (P : Type) (env : Env Empty P) pkt nicName fuel,
        check env (defaultTables.replaceTable tablenameFilter userChainTable) .input pkt nicName
          (fuel + 1) = .panics) ∧
      setEntries noMatchers defaultTables jumpLoopRuleset =
        .ok (defaultTables.replaceTable tablenameFilter jumpLoopTable) ∧
      ∀ (P : Type) (env : Env Empty P) pkt nicName fuel,
        check env (defaultTables.replaceTable tablenameFilter jumpLoopTable) .input pkt nicName
          fuel = .outOfFuel := by
  refine ⟨userChainRuleset_loads, ?_, jumpLoopRuleset_loads, ?_⟩
  · intro P env pkt nicName fuel
    -- NAT accepts, then the filter table's INPUT chain runs the user chain's head
    have headPanics : ∀ pkt', checkChain env .input userChainTable nicName (fuel + 1) 0 pkt' = .panics :=
      fun _ => checkChain_panics (by decide)
        ((checkRule_of_matched rfl (emptyFilter_match _ _ _) rfl).trans rfl)
    show checkTables env _ .input nicName (fuel + 1) [tablenameNat, tablenameFilter]
      (env.handlePacket pkt .input) = .panics
    rw [checkTables_accept (nat_accepts_input _ _ _ _ _)]
    exact checkTables_panics (headPanics _)
  · intro P env pkt nicName fuel
    show checkTables env _ .input nicName fuel [tablenameNat, tablenameFilter]
      (env.handlePacket pkt .input) = .outOfFuel
    cases fuel with
    | zero => exact checkTables_outOfFuel rfl
    | succ fuel =>
      -- the filter table's INPUT chain jumps to itself for ever
      have loops : ∀ pkt', checkChain env .input jumpLoopTable nicName (fuel + 1) 0 pkt' = .outOfFuel :=
        fun _ => checkChain_jump_self (by decide)
          ((checkRule_of_matched rfl (emptyFilter_match _ _ _) rfl).trans rfl) (fuel + 1)
      rw [checkTables_accept (nat_accepts_input _ _ _ _ _)]
      exact checkTables_outOfFuel (loops _)

end Cijitter.Netfilter
