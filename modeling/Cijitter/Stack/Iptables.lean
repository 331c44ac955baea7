import Mathlib

/-! iptables in the network stack (`pkg/tcpip/stack/iptables*.go`). A table is
a flat list of rules, with the rule each built-in chain starts at and the rule
each hook falls back on (its underflow). `Check` runs a packet through the
tables of a hook in their priority order; `checkChain` walks a table's rules
from a chain's first rule, calling itself for a jump that is not to the next
rule, and `checkRule` matches one rule and runs its target.

The packet, the matchers of a rule and what connection tracking and a
redirect do to the packet are the fields of `Env`. `checkChain` takes fuel, one
unit a turn of its loop or a call: `outOfFuel` for every fuel is a walk that
does not end (`checkChain_add_fuel`). -/

set_option autoImplicit false

namespace Cijitter.Iptables

inductive Hook where
  | prerouting
  | input
  | forward
  | output
  | postrouting
  deriving DecidableEq, Repr

inductive RuleVerdict where
  | ruleAccept
  | ruleDrop
  | ruleJump
  | ruleReturn
  deriving DecidableEq, Repr

inductive ChainVerdict where
  | chainAccept
  | chainDrop
  | chainReturn
  deriving DecidableEq, Repr

/-- How a call ends: it returns, it panics, or it does not end within its fuel. -/
inductive Outcome (α : Type) where
  | returns (a : α)
  | panics
  | outOfFuel
  deriving DecidableEq, Repr

/-- `tcpip.Address` and Go strings read from the ABI are byte strings. -/
abbrev Address := List UInt8

structure IPHeaderFilter where
  protocol : Nat
  dst : Address
  dstMask : Address
  dstInvert : Bool
  src : Address
  srcMask : Address
  srcInvert : Bool
  outputInterface : List UInt8
  outputInterfaceMask : List UInt8
  outputInterfaceInvert : Bool
  deriving DecidableEq, Repr

/-- The zero `IPHeaderFilter{}` of the default tables' rules. -/
def IPHeaderFilter.zero : IPHeaderFilter :=
  ⟨0, [], [], false, [], [], false, [], [], false⟩

/-- What `match` reads of the IPv4 header, whose addresses have four bytes. -/
structure IPv4Header where
  transportProtocol : Nat
  sourceAddress : {a : Address // a.length = 4}
  destinationAddress : {a : Address // a.length = 4}

/-- The loop of `filterAddress` over the bytes of the filter's address;
`none` when `addr` or `mask` is shorter (an index out of range). -/
def filterAddressLoop : Address → Address → Address → Option Bool
  | _, _, [] => some true
  | a :: addr, m :: mask, f :: filterAddr =>
    if a &&& m ≠ f then some false else filterAddressLoop addr mask filterAddr
  | _, _, _ :: _ => none

def filterAddress (addr mask filterAddr : Address) (invert : Bool) : Option Bool :=
  (filterAddressLoop addr mask filterAddr).map (· != invert)

/-- '+' ends an interface name that matches every name it starts. -/
def plusByte : UInt8 := 43

/-- `IPHeaderFilter.match`. -/
def IPHeaderFilter.match (fl : IPHeaderFilter) (hdr : IPv4Header) (hook : Hook)
    (nicName : List UInt8) : Option Bool := do
  if fl.protocol ≠ 0 ∧ fl.protocol ≠ hdr.transportProtocol then return false
  -- the source address is only checked when the destination matched
  if !(← filterAddress hdr.destinationAddress.1 fl.dstMask fl.dst fl.dstInvert) then return false
  if !(← filterAddress hdr.sourceAddress.1 fl.srcMask fl.src fl.srcInvert) then return false
  if hook = .output then
    let n := fl.outputInterface.length
    if n = 0 then return true
    let nameMatches :=
      if fl.outputInterface.getLast? = some plusByte then
        (fl.outputInterface.take (n - 1)).isPrefixOf nicName
      else nicName = fl.outputInterface
    return fl.outputInterfaceInvert != nameMatches
  return true

structure RedirectTarget where
  rangeProtoSpecified : Bool
  minIP : Address
  maxIP : Address
  minPort : Nat
  maxPort : Nat
  deriving DecidableEq, Repr

/-- The targets a rule can have: those of the stack and netfilter's
`JumpTarget`, whose `ruleNum` `SetEntries` fills in from its byte offset. -/
inductive Target where
  | acceptTarget
  | dropTarget
  | errorTarget
  | userChainTarget (name : List UInt8)
  | returnTarget
  | redirectTarget (rt : RedirectTarget)
  | jumpTarget (offset : Nat) (ruleNum : Int)
  deriving DecidableEq, Repr

structure Rule (M : Type) where
  filter : IPHeaderFilter
  target : Target
  matchers : List M
  deriving DecidableEq, Repr

/-- A Go map, as the list of its entries; `set` puts the new entry first. -/
abbrev GoMap (K V : Type) := List (K × V)

def GoMap.set {K V : Type} [BEq K] (m : GoMap K V) (k : K) (v : V) : GoMap K V :=
  (k, v) :: m.filter (fun entry => entry.1 != k)

theorem GoMap.lookup_filter_of_ne {K V : Type} [BEq K] [LawfulBEq K] (m : GoMap K V) {k k' : K}
    (ne : k' ≠ k) : (m.filter fun entry => entry.1 != k).lookup k' = m.lookup k' := by
  induction m with
  | nil => rfl
  | cons entry m ih =>
    obtain ⟨key, value⟩ := entry
    by_cases same : key = k
    · subst same
      have other : (k' == key) = false := by simpa using ne
      simp [List.lookup, other, ih]
    · simp [List.lookup, same, ih]

theorem GoMap.lookup_set_of_ne {K V : Type} [BEq K] [LawfulBEq K] (m : GoMap K V) {k k' : K} (v : V)
    (ne : k' ≠ k) : (m.set k v).lookup k' = m.lookup k' := by
  have other : (k' == k) = false := by simpa using ne
  simp [GoMap.set, List.lookup, other, GoMap.lookup_filter_of_ne m ne]

structure Table (M : Type) where
  rules : List (Rule M)
  builtinChains : GoMap Hook Int
  underflows : GoMap Hook Int
  userChains : GoMap (List UInt8) Int
  deriving DecidableEq, Repr

/-- The hook's number, as `Hook = iota` and Linux's `NF_INET_*` number them. -/
def Hook.toNat : Hook → Nat
  | .prerouting => 0
  | .input => 1
  | .forward => 2
  | .output => 3
  | .postrouting => 4

/-- `Table.ValidHooks`: the bits of the hooks the table has a chain for. -/
def Table.validHooks {M : Type} (table : Table M) : Nat :=
  table.builtinChains.foldl (fun hooks entry => hooks ||| 1 <<< entry.1.toNat) 0

/-- The zero `Table{}` that `GetTable` gives for a name it does not hold. -/
def Table.zero {M : Type} : Table M :=
  ⟨[], [], [], []⟩

/-- The world the rules see: packets `P` and matchers `M`. -/
structure Env (M P : Type) where
  header : P → IPv4Header
  natDone : P → Bool
  /-- `pkt.NetworkHeader` and `pkt.TransportHeader` are both set. -/
  headersSet : P → Bool
  /-- `Matcher.Match`: whether it matches, and whether to drop at once (`hotdrop`). -/
  matcherMatch : M → Hook → P → Bool × Bool
  /-- `ConnTrack.handlePacket`, which rewrites packets of tracked NAT connections. -/
  handlePacket : P → Hook → P
  /-- What `RedirectTarget.Action` does on an output or prerouting hook once it
  has chosen the address: the rewrite of the packet and its verdict. -/
  redirectPacket : RedirectTarget → Hook → P → RuleVerdict × P

variable {M P : Type}

/-- `Target.Action`: the verdict, the rule to jump to and the packet; `none`
where the source panics. -/
def Target.action (env : Env M P) : Target → P → Hook → Option (RuleVerdict × Int × P)
  | .acceptTarget, pkt, _ => some (.ruleAccept, 0, pkt)
  | .dropTarget, pkt, _ => some (.ruleDrop, 0, pkt)
  | .errorTarget, pkt, _ => some (.ruleDrop, 0, pkt)
  -- "UserChainTarget should never be called."
  | .userChainTarget _, _, _ => none
  | .returnTarget, pkt, _ => some (.ruleReturn, 0, pkt)
  | .redirectTarget rt, pkt, hook =>
    if env.natDone pkt then some (.ruleAccept, 0, pkt)
    else if !env.headersSet pkt then some (.ruleDrop, 0, pkt)
    else if hook = .output ∨ hook = .prerouting then
      let (verdict, pkt) := env.redirectPacket rt hook pkt
      some (verdict, 0, pkt)
    -- "redirect target is supported only on output and prerouting hooks"
    else none
  | .jumpTarget _ ruleNum, pkt, _ => some (.ruleJump, ruleNum, pkt)

/-- The loop of `checkRule` over the rule's matchers: the verdict it returns
early, or `none` when every matcher matched. -/
def matchersVerdict (env : Env M P) (hook : Hook) (pkt : P) (ruleIdx : Int) :
    List M → Option (RuleVerdict × Int)
  | [] => none
  | matcher :: rest =>
    let (matched, hotdrop) := env.matcherMatch matcher hook pkt
    if hotdrop then some (.ruleDrop, 0)
    else if !matched then some (.ruleJump, ruleIdx + 1)
    else matchersVerdict env hook pkt ruleIdx rest

/-- `table.Rules[ruleIdx]`, `none` out of range. -/
def Table.ruleAt (table : Table M) (ruleIdx : Int) : Option (Rule M) :=
  if 0 ≤ ruleIdx then table.rules[ruleIdx.toNat]? else none

def checkRule (env : Env M P) (hook : Hook) (pkt : P) (table : Table M) (ruleIdx : Int)
    (nicName : List UInt8) : Option (RuleVerdict × Int × P) := do
  let rule ← table.ruleAt ruleIdx
  if !(← rule.filter.match (env.header pkt) hook nicName) then
    return (.ruleJump, ruleIdx + 1, pkt)
  match matchersVerdict env hook pkt ruleIdx rule.matchers with
  | some (verdict, jumpTo) => return (verdict, jumpTo, pkt)
  | none => rule.target.action env pkt hook

/-- `checkChain` from `ruleIdx`, with `fuel` turns of its loop and calls. -/
def checkChain (env : Env M P) (hook : Hook) (table : Table M) (nicName : List UInt8) :
    Nat → Int → P → Outcome (ChainVerdict × P)
  | 0, _, _ => .outOfFuel
  | fuel + 1, ruleIdx, pkt =>
    if ruleIdx < table.rules.length then
      match checkRule env hook pkt table ruleIdx nicName with
      | none => .panics
      | some (.ruleAccept, _, pkt) => .returns (.chainAccept, pkt)
      | some (.ruleDrop, _, pkt) => .returns (.chainDrop, pkt)
      | some (.ruleReturn, _, pkt) => .returns (.chainReturn, pkt)
      | some (.ruleJump, jumpTo, pkt) =>
        if jumpTo = ruleIdx + 1 then checkChain env hook table nicName fuel (ruleIdx + 1) pkt
        else
          match checkChain env hook table nicName fuel jumpTo pkt with
          | .returns (.chainAccept, pkt) => .returns (.chainAccept, pkt)
          | .returns (.chainDrop, pkt) => .returns (.chainDrop, pkt)
          -- the jumped-to chain returned: go on after the jump
          | .returns (.chainReturn, pkt) => checkChain env hook table nicName fuel (ruleIdx + 1) pkt
          | .panics => .panics
          | .outOfFuel => .outOfFuel
    -- no decision: drop
    else .returns (.chainDrop, pkt)

/-- The tables and whether they were ever replaced. -/
structure IPTables (M : Type) where
  tables : GoMap (List UInt8) (Table M)
  modified : Bool
  deriving DecidableEq, Repr

def tablenameNat : List UInt8 := [110, 97, 116]

def tablenameMangle : List UInt8 := [109, 97, 110, 103, 108, 101]

def tablenameFilter : List UInt8 := [102, 105, 108, 116, 101, 114]

/-- `priorities` of `DefaultTables`, which nothing changes. -/
def priorities : Hook → List (List UInt8)
  | .input => [tablenameNat, tablenameFilter]
  | .prerouting => [tablenameMangle, tablenameNat]
  | .output => [tablenameMangle, tablenameNat, tablenameFilter]
  | _ => []

/-- The loop of `Check` over the tables of a hook, in priority order. -/
def checkTables (env : Env M P) (it : IPTables M) (hook : Hook) (nicName : List UInt8)
    (fuel : Nat) : List (List UInt8) → P → Outcome Bool
  | [], _ => .returns true
  | tablename :: rest, pkt =>
    let table := (it.tables.lookup tablename).getD Table.zero
    let ruleIdx := (table.builtinChains.lookup hook).getD 0
    match checkChain env hook table nicName fuel ruleIdx pkt with
    | .returns (.chainAccept, pkt) => checkTables env it hook nicName fuel rest pkt
    | .returns (.chainDrop, _) => .returns false
    | .returns (.chainReturn, pkt) =>
      -- a built-in chain returned: its underflow decides
      match table.ruleAt ((table.underflows.lookup hook).getD 0) with
      | none => .panics
      | some underflow =>
        match underflow.target.action env pkt hook with
        | some (.ruleAccept, _, pkt) => checkTables env it hook nicName fuel rest pkt
        | some (.ruleDrop, _, _) => .returns false
        -- "Underflows should only return RuleAccept or RuleDrop."
        | _ => .panics
    | .panics => .panics
    | .outOfFuel => .outOfFuel

/-- `IPTables.Check`: whether the packet goes on. -/
def check (env : Env M P) (it : IPTables M) (hook : Hook) (pkt : P) (nicName : List UInt8)
    (fuel : Nat) : Outcome Bool :=
  if !it.modified then .returns true
  else checkTables env it hook nicName fuel (priorities hook) (env.handlePacket pkt hook)

/-- `IPTables.ReplaceTable`. -/
def IPTables.replaceTable (it : IPTables M) (name : List UInt8) (table : Table M) : IPTables M :=
  ⟨it.tables.set name table, true⟩

def acceptRule : Rule M := ⟨IPHeaderFilter.zero, .acceptTarget, []⟩

def errorRule : Rule M := ⟨IPHeaderFilter.zero, .errorTarget, []⟩

/-- `DefaultTables`: every chain accepts. -/
def defaultTables : IPTables M where
  tables :=
    [(tablenameNat, ⟨[acceptRule, acceptRule, acceptRule, acceptRule, errorRule],
        [(.prerouting, 0), (.input, 1), (.output, 2), (.postrouting, 3)],
        [(.prerouting, 0), (.input, 1), (.output, 2), (.postrouting, 3)], []⟩),
      (tablenameMangle, ⟨[acceptRule, acceptRule, errorRule],
        [(.prerouting, 0), (.output, 1)], [(.prerouting, 0), (.output, 1)], []⟩),
      (tablenameFilter, ⟨[acceptRule, acceptRule, acceptRule, errorRule],
        [(.input, 0), (.forward, 1), (.output, 2)], [(.input, 0), (.forward, 1), (.output, 2)], []⟩)]
  modified := false

/-! ## Rules and chains -/

theorem filterAddressLoop_zeros (addr : Address) :
    filterAddressLoop addr (List.replicate addr.length 0) (List.replicate addr.length 0) = some true := by
  induction addr with
  | nil => rfl
  | cons a addr ih =>
    simp only [List.length_cons, List.replicate_succ, filterAddressLoop, UInt8.and_zero,
      ne_eq, not_true_eq_false, if_false]
    exact ih

theorem IPHeaderFilter.zero_match (hdr : IPv4Header) (hook : Hook) (nicName : List UInt8) :
    IPHeaderFilter.zero.match hdr hook nicName = some true := by
  simp [IPHeaderFilter.match, IPHeaderFilter.zero, filterAddress, filterAddressLoop]

section Steps

variable (env : Env M P) (hook : Hook) (table : Table M) (nicName : List UInt8)
variable {env hook table nicName}

theorem checkChain_succ (fuel : Nat) (ruleIdx : Int) (pkt : P) :
    checkChain env hook table nicName (fuel + 1) ruleIdx pkt =
      if ruleIdx < table.rules.length then
        match checkRule env hook pkt table ruleIdx nicName with
        | none => .panics
        | some (.ruleAccept, _, pkt) => .returns (.chainAccept, pkt)
        | some (.ruleDrop, _, pkt) => .returns (.chainDrop, pkt)
        | some (.ruleReturn, _, pkt) => .returns (.chainReturn, pkt)
        | some (.ruleJump, jumpTo, pkt) =>
          if jumpTo = ruleIdx + 1 then checkChain env hook table nicName fuel (ruleIdx + 1) pkt
          else
            match checkChain env hook table nicName fuel jumpTo pkt with
            | .returns (.chainAccept, pkt) => .returns (.chainAccept, pkt)
            | .returns (.chainDrop, pkt) => .returns (.chainDrop, pkt)
            | .returns (.chainReturn, pkt) => checkChain env hook table nicName fuel (ruleIdx + 1) pkt
            | .panics => .panics
            | .outOfFuel => .outOfFuel
      else .returns (.chainDrop, pkt) := rfl

theorem checkRule_of_matched {pkt : P} {ruleIdx : Int} {rule : Rule M}
    (found : table.ruleAt ruleIdx = some rule)
    (matched : rule.filter.match (env.header pkt) hook nicName = some true)
    (noMatchers : rule.matchers = []) :
    checkRule env hook pkt table ruleIdx nicName = rule.target.action env pkt hook := by
  simp [checkRule, found, matched, noMatchers, matchersVerdict]

theorem checkChain_accept {fuel : Nat} {ruleIdx jumpTo : Int} {pkt pkt' : P}
    (inRange : ruleIdx < table.rules.length)
    (accepted : checkRule env hook pkt table ruleIdx nicName = some (.ruleAccept, jumpTo, pkt')) :
    checkChain env hook table nicName (fuel + 1) ruleIdx pkt = .returns (.chainAccept, pkt') := by
  rw [checkChain_succ, if_pos inRange, accepted]

theorem checkChain_panics {fuel : Nat} {ruleIdx : Int} {pkt : P}
    (inRange : ruleIdx < table.rules.length)
    (panicked : checkRule env hook pkt table ruleIdx nicName = none) :
    checkChain env hook table nicName (fuel + 1) ruleIdx pkt = .panics := by
  rw [checkChain_succ, if_pos inRange, panicked]

theorem checkChain_jump_self {ruleIdx : Int} {pkt : P} (inRange : ruleIdx < table.rules.length)
    (jumped : checkRule env hook pkt table ruleIdx nicName = some (.ruleJump, ruleIdx, pkt))
    (fuel : Nat) : checkChain env hook table nicName fuel ruleIdx pkt = .outOfFuel := by
  induction fuel with
  | zero => rfl
  | succ fuel ih =>
    have notNext : ruleIdx ≠ ruleIdx + 1 := by omega
    rw [checkChain_succ, if_pos inRange, jumped]
    simp [notNext, ih]

variable {it : IPTables M} {tablename : List UInt8} {rest : List (List UInt8)} {fuel : Nat}

/-- The table `checkTables` runs a hook's chain of. -/
def IPTables.tableFor (it : IPTables M) (tablename : List UInt8) : Table M :=
  (it.tables.lookup tablename).getD Table.zero

theorem IPTables.tableFor_replaceTable_of_ne (it : IPTables M) {name other : List UInt8}
    (table : Table M) (ne : other ≠ name) :
    (it.replaceTable name table).tableFor other = it.tableFor other := by
  simp [IPTables.tableFor, IPTables.replaceTable, GoMap.lookup_set_of_ne _ _ ne]

theorem checkTables_cons (pkt : P) :
    checkTables env it hook nicName fuel (tablename :: rest) pkt =
      match checkChain env hook (it.tableFor tablename) nicName fuel
          (((it.tableFor tablename).builtinChains.lookup hook).getD 0) pkt with
      | .returns (.chainAccept, pkt) => checkTables env it hook nicName fuel rest pkt
      | .returns (.chainDrop, _) => .returns false
      | .returns (.chainReturn, pkt) =>
        match (it.tableFor tablename).ruleAt
            (((it.tableFor tablename).underflows.lookup hook).getD 0) with
        | none => .panics
        | some underflow =>
          match underflow.target.action env pkt hook with
          | some (.ruleAccept, _, pkt) => checkTables env it hook nicName fuel rest pkt
          | some (.ruleDrop, _, _) => .returns false
          | _ => .panics
      | .panics => .panics
      | .outOfFuel => .outOfFuel := rfl

theorem checkTables_accept {pkt pkt' : P}
    (accepted : checkChain env hook (it.tableFor tablename) nicName fuel
      (((it.tableFor tablename).builtinChains.lookup hook).getD 0) pkt = .returns (.chainAccept, pkt')) :
    checkTables env it hook nicName fuel (tablename :: rest) pkt =
      checkTables env it hook nicName fuel rest pkt' := by
  rw [checkTables_cons, accepted]

theorem checkTables_panics {pkt : P}
    (panicked : checkChain env hook (it.tableFor tablename) nicName fuel
      (((it.tableFor tablename).builtinChains.lookup hook).getD 0) pkt = .panics) :
    checkTables env it hook nicName fuel (tablename :: rest) pkt = .panics := by
  rw [checkTables_cons, panicked]

theorem checkTables_outOfFuel {pkt : P}
    (ranOut : checkChain env hook (it.tableFor tablename) nicName fuel
      (((it.tableFor tablename).builtinChains.lookup hook).getD 0) pkt = .outOfFuel) :
    checkTables env it hook nicName fuel (tablename :: rest) pkt = .outOfFuel := by
  rw [checkTables_cons, ranOut]

end Steps

/-! ## Fuel -/

section Fuel

variable (env : Env M P) (hook : Hook) (table : Table M) (nicName : List UInt8)

theorem checkChain_add_fuel (fuel extra : Nat) (ruleIdx : Int) (pkt : P)
    (ended : checkChain env hook table nicName fuel ruleIdx pkt ≠ .outOfFuel) :
    checkChain env hook table nicName (fuel + extra) ruleIdx pkt =
      checkChain env hook table nicName fuel ruleIdx pkt := by
  induction fuel generalizing ruleIdx pkt with
  | zero => exact absurd rfl ended
  | succ fuel ih =>
    rw [Nat.add_right_comm]
    simp only [checkChain_succ] at ended ⊢
    by_cases inRange : ruleIdx < table.rules.length
    · simp only [inRange, if_true] at ended ⊢
      rcases rule : checkRule env hook pkt table ruleIdx nicName with _ | ⟨verdict, jumpTo, pkt'⟩
      · rfl
      simp only [rule] at ended ⊢
      cases verdict with
      | ruleAccept => rfl
      | ruleDrop => rfl
      | ruleReturn => rfl
      | ruleJump =>
        by_cases next : jumpTo = ruleIdx + 1
        · simp only [next, if_true] at ended ⊢
          exact ih _ _ ended
        · simp only [next, if_false] at ended ⊢
          -- the jumped-to walk ended, or this turn would be out of fuel too
          have jumped : checkChain env hook table nicName fuel jumpTo pkt' ≠ .outOfFuel := by
            intro out
            simp [out] at ended
          rw [ih _ _ jumped]
          rcases walk : checkChain env hook table nicName fuel jumpTo pkt' with
            ⟨verdict, pkt''⟩ | _ | _
          · cases verdict with
            | chainAccept => rfl
            | chainDrop => rfl
            | chainReturn =>
              simp only [walk] at ended ⊢
              exact ih _ _ ended
          · rfl
          · rfl
    · simp only [inRange, if_false]

end Fuel

end Cijitter.Iptables
