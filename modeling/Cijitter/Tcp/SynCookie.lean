import Cijitter.Tcp.Seqnum

/-! SYN cookies (`pkg/tcpip/transport/tcp/accept.go`). A cookie packs the
8-bit timestamp above a 24-bit hashed payload and adds a hash of the
connection and the peer's sequence number, all modulo `2^32`. The hash is
the first four bytes of a SHA-1 over the connection, the timestamp and one
of two random nonces; a listening context is here any such function.

The payload never carries into the timestamp, so a cookie checked within
`maxTSDiff` periods gives its payload back (`isCookieValid_createCookie`),
and the MSS a listener recovers from it is the table entry that
`encodeMSS` chose. -/

set_option autoImplicit false

namespace Cijitter.Tcp

def tsLen : UInt32 := 8

def tsMask : UInt32 := (1 <<< tsLen) - 1

def tsOffset : UInt32 := 24

def hashMask : UInt32 := (1 <<< tsOffset) - 1

def maxTSDiff : UInt32 := 2

/-- The MSS values a cookie encodes in two bits. -/
def mssTable : List UInt16 := [536, 1300, 1440, 1460]

/-- The loop of `encodeMSS` from index `i` down to `1`. -/
def encodeMSSFrom : Nat → UInt16 → UInt32
  | 0, _ => 0
  | i + 1, mss => if mssTable.getD (i + 1) 0 ≤ mss then UInt32.ofNat (i + 1) else encodeMSSFrom i mss

def encodeMSS (mss : UInt16) : UInt32 := encodeMSSFrom (mssTable.length - 1) mss

/-- `timeStamp`: the Unix time in seconds with a granularity of 64 seconds,
in 8 bits. -/
def timeStamp (unix : Int64) : UInt32 := (unix >>> 6).toUInt64.toUInt32 &&& tsMask

/-- A listening context as the cookie functions use it: `cookieHash id ts
nonceIndex`. -/
structure ListenContext (EndpointID : Type) where
  cookieHash : EndpointID → UInt32 → Nat → UInt32

namespace ListenContext

variable {EndpointID : Type} (l : ListenContext EndpointID)

/-- `createCookie`, with the clock read at `unix`. -/
def createCookie (unix : Int64) (id : EndpointID) (seq : SeqValue) (data : UInt32) : SeqValue :=
  let ts := timeStamp unix
  let v := l.cookieHash id 0 0 + seq + (ts <<< tsOffset)
  v + ((l.cookieHash id ts 1 + data) &&& hashMask)

/-- `isCookieValid`, with the clock read at `unix`. -/
def isCookieValid (unix : Int64) (id : EndpointID) (cookie seq : SeqValue) : UInt32 × Bool :=
  let ts := timeStamp unix
  let v := cookie - l.cookieHash id 0 0 - seq
  let cookieTS := v >>> tsOffset
  if maxTSDiff < (ts - cookieTS) &&& tsMask then (0, false)
  else ((v - l.cookieHash id cookieTS 1) &&& hashMask, true)

/-- The ACK branch of `handleListenSegment` with SYN cookies in use: the
MSS of the endpoint it creates, or `none` where the ACK is dropped. -/
def cookieAckMSS (unix : Int64) (id : EndpointID) (ackNumber sequenceNumber : SeqValue) : Option UInt16 :=
  let iss := ackNumber - 1
  let irs := sequenceNumber - 1
  match l.isCookieValid unix id iss irs with
  | (data, ok) => if !ok || mssTable.length ≤ data.toNat then none else some (mssTable.getD data.toNat 0)

end ListenContext

/-! ## The round trip -/

theorem timeStamp_lt (unix : Int64) : (timeStamp unix).toNat < 2 ^ 8 := by
  rw [timeStamp, UInt32.toNat_and, show tsMask.toNat = 2 ^ 8 - 1 from rfl, Nat.and_two_pow_sub_one_eq_mod]
  exact Nat.mod_lt _ (by decide)

theorem toNat_and_hashMask (x : UInt32) : (x &&& hashMask).toNat = x.toNat % 2 ^ 24 := by
  rw [UInt32.toNat_and, show hashMask.toNat = 2 ^ 24 - 1 from rfl, Nat.and_two_pow_sub_one_eq_mod]

theorem isCookieValid_createCookie {EndpointID : Type} (l : ListenContext EndpointID) (created checked : Int64)
    (id : EndpointID) (seq data : SeqValue) (small : data.toNat < 2 ^ 24) :
    l.isCookieValid checked id (l.createCookie created id seq data) seq =
      if maxTSDiff < (timeStamp checked - timeStamp created) &&& tsMask then (0, false) else (data, true) := by
  have ts_lt := timeStamp_lt created
  -- the hashed payload sits below the timestamp
  have unhashed : l.createCookie created id seq data - l.cookieHash id 0 0 - seq =
      (timeStamp created <<< tsOffset) + ((l.cookieHash id (timeStamp created) 1 + data) &&& hashMask) := by
    have := (l.cookieHash id 0 0).toNat_lt
    have := seq.toNat_lt
    have := (timeStamp created <<< tsOffset).toNat_lt
    have := ((l.cookieHash id (timeStamp created) 1 + data) &&& hashMask).toNat_lt
    apply UInt32.toNat_inj.mp
    simp only [ListenContext.createCookie, UInt32.toNat_add, UInt32.toNat_sub]
    omega
  have payload_lt := toNat_and_hashMask (l.cookieHash id (timeStamp created) 1 + data)
  have shifted : (timeStamp created <<< tsOffset).toNat = (timeStamp created).toNat * 2 ^ 24 := by
    rw [UInt32.toNat_shiftLeft, show tsOffset.toNat % 32 = 24 from rfl, Nat.shiftLeft_eq]
    omega
  have packed : ((timeStamp created <<< tsOffset) +
      ((l.cookieHash id (timeStamp created) 1 + data) &&& hashMask)).toNat =
      (timeStamp created).toNat * 2 ^ 24 + (l.cookieHash id (timeStamp created) 1 + data).toNat % 2 ^ 24 := by
    rw [UInt32.toNat_add, shifted, payload_lt]
    omega
  have cookie_ts : ((timeStamp created <<< tsOffset) +
      ((l.cookieHash id (timeStamp created) 1 + data) &&& hashMask)) >>> tsOffset = timeStamp created := by
    apply UInt32.toNat_inj.mp
    rw [UInt32.toNat_shiftRight, show tsOffset.toNat % 32 = 24 from rfl, Nat.shiftRight_eq_div_pow, packed]
    omega
  unfold ListenContext.isCookieValid
  dsimp only
  rw [unhashed, cookie_ts]
  split
  · rfl
  · -- the payload comes back
    refine Prod.ext ?_ rfl
    dsimp only
    have := (l.cookieHash id (timeStamp created) 1).toNat_lt
    apply UInt32.toNat_inj.mp
    rw [toNat_and_hashMask, UInt32.toNat_sub, packed, UInt32.toNat_add]
    omega

/-- The age of a cookie in periods of 64 seconds, modulo the 8 bits of the
timestamp. -/
def cookieAge (created checked : Int64) : Nat :=
  ((timeStamp checked).toNat + 2 ^ 8 - (timeStamp created).toNat) % 2 ^ 8

theorem toNat_age (created checked : Int64) :
    ((timeStamp checked - timeStamp created) &&& tsMask).toNat = cookieAge created checked := by
  have created_lt := timeStamp_lt created
  have checked_lt := timeStamp_lt checked
  rw [UInt32.toNat_and, show tsMask.toNat = 2 ^ 8 - 1 from rfl, Nat.and_two_pow_sub_one_eq_mod, UInt32.toNat_sub,
    cookieAge]
  omega

theorem encodeMSSFrom_spec (mss : UInt16) (enough : 536 ≤ mss) :
    ∀ i, i < mssTable.length → (encodeMSSFrom i mss).toNat ≤ i ∧ mssTable.getD (encodeMSSFrom i mss).toNat 0 ≤ mss
  | 0, _ => ⟨Nat.le_refl _, enough⟩
  | i + 1, inside => by
    unfold encodeMSSFrom
    split
    · next fits =>
      have index_eq : (UInt32.ofNat (i + 1)).toNat = i + 1 := by
        rw [UInt32.toNat_ofNat', Nat.mod_eq_of_lt (by simp [mssTable] at inside; omega)]
      rw [index_eq]
      exact ⟨Nat.le_refl _, fits⟩
    · obtain ⟨below, entry⟩ := encodeMSSFrom_spec mss enough i (by omega)
      exact ⟨by omega, entry⟩

theorem synCookies_round_trip {EndpointID : Type} (l : ListenContext EndpointID) (created checked : Int64)
    (id : EndpointID) (seq : SeqValue) :
    (∀ data : UInt32, data.toNat < 2 ^ 24 → cookieAge created checked ≤ maxTSDiff.toNat →
        l.isCookieValid checked id (l.createCookie created id seq data) seq = (data, true)) ∧
      (∀ mss : UInt16, 536 ≤ mss → cookieAge created checked ≤ maxTSDiff.toNat →
        l.cookieAckMSS checked id (l.createCookie created id seq (encodeMSS mss) + 1) (seq + 1) =
            some (mssTable.getD (encodeMSS mss).toNat 0) ∧
          mssTable.getD (encodeMSS mss).toNat 0 ≤ mss) ∧
      (∀ data : UInt32, data.toNat < 2 ^ 24 → maxTSDiff.toNat < cookieAge created checked →
        l.isCookieValid checked id (l.createCookie created id seq data) seq = (0, false)) ∧
      ∀ cookie : SeqValue, maxTSDiff < (timeStamp checked - (cookie - l.cookieHash id 0 0 - seq) >>> tsOffset) &&& tsMask →
        l.isCookieValid checked id cookie seq = (0, false) := by
  have fresh_iff : maxTSDiff < (timeStamp checked - timeStamp created) &&& tsMask ↔
      maxTSDiff.toNat < cookieAge created checked := by
    rw [UInt32.lt_iff_toNat_lt, toNat_age]
  refine ⟨fun data small fresh => ?_, fun mss enough fresh => ?_, fun data small stale => ?_, fun cookie stale => ?_⟩
  · rw [isCookieValid_createCookie l created checked id seq data small,
      if_neg (fun stale => Nat.not_lt.mpr fresh (fresh_iff.mp stale))]
  · -- `encodeMSS` loops from the last index of the table
    have encoded : encodeMSS mss = encodeMSSFrom 3 mss := rfl
    obtain ⟨index_le, entry⟩ := encodeMSSFrom_spec mss enough 3 (by decide)
    rw [← encoded] at index_le entry
    have small : (encodeMSS mss).toNat < 2 ^ 24 := by omega
    refine ⟨?_, entry⟩
    unfold ListenContext.cookieAckMSS
    simp only [UInt32.add_sub_cancel]
    rw [isCookieValid_createCookie l created checked id seq _ small,
      if_neg (fun stale => Nat.not_lt.mpr fresh (fresh_iff.mp stale))]
    have inside : ¬mssTable.length ≤ (encodeMSS mss).toNat := by
      simp only [mssTable, List.length_cons, List.length_nil]
      omega
    simp [inside]
  · rw [isCookieValid_createCookie l created checked id seq data small, if_pos (fresh_iff.mpr stale)]
  · unfold ListenContext.isCookieValid
    rw [if_pos stale]

/-- A cookie checked in its own period, its MSS recovered by the listener,
and the same cookie three periods later. -/
theorem synCookies_round_trip_fresh_and_stale :
    ListenContext.isCookieValid ⟨fun _ _ _ => 7⟩ 0 () (ListenContext.createCookie ⟨fun _ _ _ => 7⟩ 0 () 5 3) 5 =
        (3, true) ∧
      ListenContext.cookieAckMSS ⟨fun _ _ _ => 7⟩ 0 ()
          (ListenContext.createCookie ⟨fun _ _ _ => 7⟩ 0 () 5 (encodeMSS 1460) + 1) (5 + 1) =
        some (mssTable.getD (encodeMSS 1460).toNat 0) ∧
      ListenContext.isCookieValid ⟨fun _ _ _ => 7⟩ 192 () (ListenContext.createCookie ⟨fun _ _ _ => 7⟩ 0 () 5 3) 5 =
        (0, false) :=
  ⟨(synCookies_round_trip ⟨fun _ _ _ => 7⟩ 0 0 () 5).1 3 (by decide) (by decide),
    ((synCookies_round_trip ⟨fun _ _ _ => 7⟩ 0 0 () 5).2.1 1460 (by decide) (by decide)).1,
    (synCookies_round_trip ⟨fun _ _ _ => 7⟩ 0 192 () 5).2.2.1 3 (by decide) (by decide)⟩

end Cijitter.Tcp
