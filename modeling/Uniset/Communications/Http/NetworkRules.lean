import Uniset.Lib.BigEndian
import Uniset.Core
import Mathlib.Data.List.DropRight

/-! Who may use the HTTP server: the rules for addresses and the lists of them. -/

namespace Uniset.UHttp

open Uniset.Lib

inductive Family
  | IPv4
  | IPv6
  deriving DecidableEq

def Family.length : Family → Nat
  | .IPv4 => 4
  | .IPv6 => 16

/-- The bytes of an address, the highest first. -/
structure IPAddress where
  family : Family
  addr : List UInt8
  length_addr : addr.length = family.length
  deriving DecidableEq

namespace IPAddress

def length (ip : IPAddress) : Nat := ip.family.length

def wildcard : IPAddress := ⟨.IPv4, [0, 0, 0, 0], rfl⟩

def value (ip : IPAddress) : Nat := bigEndian ip.addr

end IPAddress

structure NetworkRule where
  address : IPAddress
  prefixLength : Nat
  isRange : Bool
  rangeEnd : IPAddress

/-! ## Texts -/

/-- What is before a character where it is first, and what is after. -/
def cut (c : Char) (text : List Char) : Option (List Char × List Char) :=
  if c ∈ text then some (text.takeWhile (· ≠ c), (text.dropWhile (· ≠ c)).tail) else none

def isspace (c : Char) : Bool := c = ' ' || decide (9 ≤ c.toNat ∧ c.toNat ≤ 13)

/-- `std::stoul`: what follows the number is not looked at, and a minus is taken modulo `2 ^ 64`. -/
def stoul (text : List Char) : Option Nat :=
  let text := text.dropWhile isspace
  let digits := if text.head? = some '-' ∨ text.head? = some '+' then text.tail else text
  let n := leadingNumber 10 digits 0
  if (digits.head?.bind (digitValue 10)).isNone ∨ n ≥ 18446744073709551616 then none
  else if text.head? = some '-' then some ((18446744073709551616 - n) % 18446744073709551616)
  else some n

def blank (c : Char) : Bool := c = ' ' || c = '\t'

def trim (v : List Char) : List Char := (v.dropWhile blank).rdropWhile blank

/-! ## Rules -/

variable (parse : List Char → Option IPAddress)

/-- The length of the network is an `unsigned int`, the number in the text an `unsigned long`. -/
def makeRule (cidr : List Char) : Option NetworkRule :=
  match cut '-' cidr with
  | some (startStr, endStr) =>
    match parse startStr, parse endStr with
    | some address, some rangeEnd =>
      if address.family ≠ rangeEnd.family then none
      else if memcmp address.addr rangeEnd.addr = .gt then none
      else some ⟨address, 0, true, rangeEnd⟩
    | _, _ => none
  | none =>
    match cut '/' cidr with
    | none => (parse cidr).map fun address => ⟨address, address.length * 8, false, .wildcard⟩
    | some (addr, len) =>
      match parse addr, stoul len with
      | some address, some n =>
        let prefixLength := n % 4294967296
        if prefixLength > address.length * 8 then none
        else some ⟨address, prefixLength, false, .wildcard⟩
      | _, _ => none

/-- Entries that cannot be read are left out. -/
def buildRules (values : List (List Char)) : List NetworkRule :=
  values.filterMap fun v => if v.all blank then none else makeRule parse (trim v)

/-- The bytes under the mask of the network. -/
def maskLoop : Nat → List UInt8 → List UInt8 → Bool
  | bitsLeft, a :: addr, n :: netaddr =>
    if bitsLeft = 0 then true
    else
      let mask : UInt8 := if bitsLeft ≥ 8 then 0xFF else (0xFF <<< (8 - bitsLeft)).toUInt8
      if a &&& mask ≠ n &&& mask then false
      else maskLoop (if bitsLeft ≥ 8 then bitsLeft - 8 else 0) addr netaddr
  | _, _, _ => true

def matchRule (ip : IPAddress) (rule : NetworkRule) : Bool :=
  if rule.isRange then
    if ip.family ≠ rule.address.family then false
    else (memcmp rule.address.addr ip.addr).isLE && (memcmp ip.addr rule.rangeEnd.addr).isLE
  else if ip.family ≠ rule.address.family then false
  else maskLoop rule.prefixLength ip.addr rule.address.addr

def inRules (ip : IPAddress) (rules : List NetworkRule) : Bool := rules.any (matchRule ip)

def isDenied (ip : IPAddress) (whitelistRules blacklistRules : List NetworkRule) : Bool :=
  if inRules ip blacklistRules then true
  else !whitelistRules.isEmpty && !inRules ip whitelistRules

/-! ## Requests -/

/-- A header that is not there is empty. -/
structure HTTPServerRequest where
  clientAddress : IPAddress
  xForwardedFor : List Char
  xRealIP : List Char
  authorization : List Char

structure UHttpRequestHandler where
  whitelist : List NetworkRule
  blacklist : List NetworkRule
  trustedProxies : List NetworkRule
  bearerRequired : Bool
  bearerTokens : List (List Char)

inductive Response
  | unauthorized
  | forbidden
  | handled
  deriving DecidableEq

/-- The address before the first comma. -/
def tryParse (value : List Char) : Option IPAddress :=
  let candidate := trim (value.takeWhile (· ≠ ','))
  if candidate = [] then none else parse candidate

def clientIP (h : UHttpRequestHandler) (req : HTTPServerRequest) : IPAddress :=
  if inRules req.clientAddress h.trustedProxies then
    let xri := if req.xForwardedFor = [] then req.xRealIP else []
    ((tryParse parse req.xForwardedFor).or (tryParse parse xri)).getD req.clientAddress
  else req.clientAddress

def validateBearer (header : List Char) (tokens : List (List Char)) : Bool :=
  let scheme := "Bearer ".toList
  if header = [] ∨ tokens = [] then false
  else if header.length ≤ scheme.length then false
  else if header.take scheme.length ≠ scheme then false
  else decide (header.drop scheme.length ∈ tokens)

/-- What is done with a request that is let in is not looked at. -/
def handleRequest (h : UHttpRequestHandler) (req : HTTPServerRequest) : Response :=
  if h.bearerRequired && !validateBearer req.authorization h.bearerTokens then .unauthorized
  else if isDenied (clientIP parse h req) h.whitelist h.blacklist then .forbidden
  else .handled

/-- The lists as they are given to the server. -/
structure UHttpServer where
  whitelist : List (List Char)
  blacklist : List (List Char)
  trustedProxies : List (List Char)

def UHttpServer.createRequestHandler (s : UHttpServer) (bearerRequired : Bool)
    (bearerTokens : List (List Char)) : UHttpRequestHandler :=
  ⟨buildRules parse s.whitelist, buildRules parse s.blacklist, buildRules parse s.trustedProxies,
    bearerRequired, bearerTokens⟩

/-! ## What the texts mean -/

/-- The addresses that a text stands for, as numbers. -/
inductive Denotes (text : List Char) (ip : IPAddress) : Prop
  | range {a b : List Char} {first last : IPAddress} (hcut : cut '-' text = some (a, b))
    (hfirst : parse a = some first) (hlast : parse b = some last) (hfamily : first.family = ip.family)
    (hfamily' : last.family = ip.family) (hle : first.value ≤ ip.value) (hle' : ip.value ≤ last.value)
  | network {a len : List Char} {net : IPAddress} {n : Nat} (hrange : cut '-' text = none)
    (hcut : cut '/' text = some (a, len)) (hnet : parse a = some net) (hlen : stoul len = some n)
    (hn : n ≤ 8 * net.length) (hfamily : net.family = ip.family)
    (hbits : ip.value / 2 ^ (8 * net.length - n) = net.value / 2 ^ (8 * net.length - n))
  | single (hrange : cut '-' text = none) (hcut : cut '/' text = none) (hip : parse text = some ip)

/-- The network is longer than any address, and fits in one once the upper bits are cut off. -/
def Overflows (text : List Char) : Prop :=
  cut '-' text = none ∧ ∃ a len net n, cut '/' text = some (a, len) ∧ parse a = some net ∧
    stoul len = some n ∧ 4294967296 ≤ n ∧ n % 4294967296 ≤ net.length * 8

/-- The address is in the list. -/
def Listed (texts : List (List Char)) (ip : IPAddress) : Prop :=
  ∃ v ∈ texts, ¬v.all blank ∧ Denotes parse (trim v) ip

def Given (texts : List (List Char)) : Prop := ∃ v ∈ texts, ¬v.all blank

namespace UHttpServer

variable (s : UHttpServer)

def texts : List (List Char) := s.whitelist ++ s.blacklist ++ s.trustedProxies

/-- The address that a request is judged by. -/
def Judged (req : HTTPServerRequest) (ip : IPAddress) : Prop :=
  (¬Listed parse s.trustedProxies req.clientAddress ∧ ip = req.clientAddress) ∨
    (Listed parse s.trustedProxies req.clientAddress ∧
      ip = ((tryParse parse req.xForwardedFor).or (tryParse parse
        (if req.xForwardedFor = [] then req.xRealIP else []))).getD req.clientAddress)

def Authorized (required : Bool) (tokens : List (List Char)) (req : HTTPServerRequest) : Prop :=
  required = true → validateBearer req.authorization tokens = true

structure Right : Prop where
  rules : ∀ v ∈ s.texts, ¬v.all blank → ∀ rule, makeRule parse (trim v) = some rule →
    ∀ ip, matchRule ip rule = true ↔ Denotes parse (trim v) ip
  refused : ∀ required tokens req ip, s.Judged parse req ip → Authorized required tokens req →
    (handleRequest parse (s.createRequestHandler parse required tokens) req = .forbidden ↔
      Listed parse s.blacklist ip ∨ Given s.whitelist ∧ ¬Listed parse s.whitelist ip)
  headers : ∀ required tokens req xff xri, ¬Listed parse s.trustedProxies req.clientAddress →
    handleRequest parse (s.createRequestHandler parse required tokens)
        { req with xForwardedFor := xff, xRealIP := xri } =
      handleRequest parse (s.createRequestHandler parse required tokens) req

/-- A network fits before anything is cut off; of a whitelist that is given an entry can be read, or
everyone is in the blacklist. -/
structure Readable : Prop where
  fits : ∀ v ∈ s.texts, ¬v.all blank → ¬Overflows parse (trim v)
  whitelist : Given s.whitelist → buildRules parse s.whitelist ≠ [] ∨ ∀ ip, Listed parse s.blacklist ip

end UHttpServer

variable {parse : List Char → Option IPAddress}

/-! ## One rule -/

theorem maskLoop_zero (addr netaddr : List UInt8) : maskLoop 0 addr netaddr = true := by
  cases addr with
  | nil => rfl
  | cons a addr =>
    cases netaddr with
    | nil => rfl
    | cons n netaddr => rfl

/-- A whole byte of the network. -/
theorem maskLoop_cons_of_ge {bitsLeft : Nat} (h : 8 ≤ bitsLeft) (a n : UInt8)
    (addr netaddr : List UInt8) :
    maskLoop bitsLeft (a :: addr) (n :: netaddr) = true ↔
      a = n ∧ maskLoop (bitsLeft - 8) addr netaddr = true := by
  have hpos : bitsLeft ≠ 0 := by omega
  have hones : (0xFF : UInt8) = -1 := rfl
  have hmask : ∀ x : UInt8, x &&& 0xFF = x := fun x => by rw [hones, UInt8.and_neg_one]
  rw [maskLoop, if_neg hpos, if_pos h, if_pos h]
  dsimp only
  rw [hmask, hmask]
  by_cases han : a = n
  · simp [han]
  · simp [han]

/-- The byte that the network ends in. -/
theorem maskLoop_cons_of_lt {bitsLeft : Nat} (hpos : bitsLeft ≠ 0) (h : bitsLeft < 8) (a n : UInt8)
    (addr netaddr : List UInt8) :
    maskLoop bitsLeft (a :: addr) (n :: netaddr) = true ↔
      a.toNat / 2 ^ (8 - bitsLeft) = n.toNat / 2 ^ (8 - bitsLeft) := by
  rw [← and_mask_eq_iff, maskLoop, if_neg hpos, if_neg (Nat.not_le_of_lt h), if_neg (Nat.not_le_of_lt h),
    maskLoop_zero]
  dsimp only
  split
  · rename_i hne
    exact iff_of_false Bool.false_ne_true hne
  · rename_i heq
    exact iff_of_true rfl (not_not.mp heq)

/-- The loop compares the first bits of the two numbers. -/
theorem maskLoop_iff {bits : Nat} {addr netaddr : List UInt8} (hlen : addr.length = netaddr.length)
    (hbits : bits ≤ 8 * addr.length) :
    maskLoop bits addr netaddr = true ↔
      bigEndian addr / 2 ^ (8 * addr.length - bits) =
        bigEndian netaddr / 2 ^ (8 * addr.length - bits) := by
  induction addr generalizing bits netaddr with
  | nil =>
    cases netaddr with
    | nil => exact iff_of_true rfl rfl
    | cons n netaddr => cases hlen
  | cons a addr ih =>
    cases netaddr with
    | nil => cases hlen
    | cons n netaddr =>
      have hlen' : addr.length = netaddr.length := Nat.succ.inj hlen
      have hwidth : 8 * (a :: addr).length = 8 * addr.length + 8 := rfl
      rw [hwidth] at hbits ⊢
      rcases Nat.lt_or_ge bits 8 with hlt | hge
      · by_cases hzero : bits = 0
        · subst hzero
          have ha := bigEndian_lt (a :: addr)
          have hn := bigEndian_lt (n :: netaddr)
          rw [← hlen, hwidth] at hn
          rw [hwidth] at ha
          rw [maskLoop_zero, Nat.sub_zero, Nat.div_eq_of_lt ha, Nat.div_eq_of_lt hn]
          exact iff_of_true rfl rfl
        · have hshift : 8 * addr.length + 8 - bits = 8 * addr.length + (8 - bits) := by omega
          rw [maskLoop_cons_of_lt hzero hlt, hshift, bigEndian_cons_div_high, hlen',
            bigEndian_cons_div_high]
      · have hshift : 8 * addr.length + 8 - bits = 8 * addr.length - (bits - 8) := by omega
        rw [maskLoop_cons_of_ge hge, hshift, bigEndian_cons_div_low_eq_iff hlen' (Nat.sub_le _ _),
          ih hlen' (by omega)]

theorem IPAddress.value_inj {a b : IPAddress} (hfamily : a.family = b.family) :
    a.value = b.value ↔ a = b := by
  obtain ⟨fa, as, ha⟩ := a
  obtain ⟨fb, bs, hb⟩ := b
  cases hfamily
  refine (bigEndian_inj (ha.trans hb.symm)).trans ⟨?_, fun h => congrArg IPAddress.addr h⟩
  rintro rfl
  rfl

theorem IPAddress.length_addr_eq {a b : IPAddress} (hfamily : a.family = b.family) :
    a.addr.length = b.addr.length := by
  rw [a.length_addr, b.length_addr, hfamily]

theorem isLE_memcmp_iff {a b : IPAddress} (hfamily : a.family = b.family) :
    (memcmp a.addr b.addr).isLE = true ↔ a.value ≤ b.value := by
  rw [memcmp_eq_compare (IPAddress.length_addr_eq hfamily)]
  exact Nat.isLE_compare

theorem matchRule_range_iff {first last : IPAddress} {n : Nat} (hfamily : first.family = last.family)
    (ip : IPAddress) : matchRule ip ⟨first, n, true, last⟩ = true ↔
      first.family = ip.family ∧ first.value ≤ ip.value ∧ ip.value ≤ last.value := by
  unfold matchRule
  rw [if_pos rfl]
  dsimp only
  by_cases hip : ip.family = first.family
  · rw [if_neg (not_not.mpr hip), Bool.and_eq_true, isLE_memcmp_iff hip.symm,
      isLE_memcmp_iff (hip.trans hfamily)]
    exact (and_iff_right hip.symm).symm
  · rw [if_pos hip]
    exact iff_of_false Bool.false_ne_true fun h => hip h.1.symm

theorem matchRule_network_iff {net : IPAddress} {n : Nat} (hn : n ≤ 8 * net.length) (ip : IPAddress) :
    matchRule ip ⟨net, n, false, .wildcard⟩ = true ↔ net.family = ip.family ∧
      ip.value / 2 ^ (8 * net.length - n) = net.value / 2 ^ (8 * net.length - n) := by
  unfold matchRule
  rw [if_neg Bool.false_ne_true]
  dsimp only
  by_cases hip : ip.family = net.family
  · have hlen : ip.addr.length = net.length := ip.length_addr.trans (congrArg Family.length hip)
    rw [if_neg (not_not.mpr hip), maskLoop_iff (IPAddress.length_addr_eq hip) (hlen ▸ hn), hlen]
    exact (and_iff_right hip.symm).symm
  · rw [if_pos hip]
    exact iff_of_false Bool.false_ne_true fun h => hip h.1.symm

theorem makeRule_cases {text : List Char} {rule : NetworkRule} (h : makeRule parse text = some rule) :
    (∃ a b first last, cut '-' text = some (a, b) ∧ parse a = some first ∧ parse b = some last ∧
      first.family = last.family ∧ rule = ⟨first, 0, true, last⟩) ∨
    (cut '-' text = none ∧ cut '/' text = none ∧ ∃ ip, parse text = some ip ∧
      rule = ⟨ip, ip.length * 8, false, .wildcard⟩) ∨
    (cut '-' text = none ∧ ∃ a len net n, cut '/' text = some (a, len) ∧ parse a = some net ∧
      stoul len = some n ∧ n % 4294967296 ≤ net.length * 8 ∧
      rule = ⟨net, n % 4294967296, false, .wildcard⟩) := by
  unfold makeRule at h
  cases hrange : cut '-' text with
  | some ends =>
    obtain ⟨a, b⟩ := ends
    rw [hrange] at h
    dsimp only at h
    cases hfirst : parse a with
    | none => rw [hfirst] at h; cases h
    | some first =>
      cases hlast : parse b with
      | none => rw [hfirst, hlast] at h; cases h
      | some last =>
        rw [hfirst, hlast] at h
        dsimp only at h
        split at h
        · cases h
        · rename_i hfamily
          split at h
          · cases h
          · exact .inl ⟨a, b, first, last, rfl, hfirst, hlast, not_not.mp hfamily,
              (Option.some.inj h).symm⟩
  | none =>
    rw [hrange] at h
    dsimp only at h
    cases hcut : cut '/' text with
    | none =>
      rw [hcut] at h
      obtain ⟨ip, hip, rfl⟩ := Option.map_eq_some_iff.mp h
      exact .inr (.inl ⟨rfl, rfl, ip, hip, rfl⟩)
    | some parts =>
      obtain ⟨a, len⟩ := parts
      rw [hcut] at h
      dsimp only at h
      cases hnet : parse a with
      | none => rw [hnet] at h; cases h
      | some net =>
        cases hlen : stoul len with
        | none => rw [hnet, hlen] at h; cases h
        | some n =>
          rw [hnet, hlen] at h
          dsimp only at h
          split at h
          · cases h
          · rename_i hle
            exact .inr (.inr ⟨rfl, a, len, net, n, rfl, hnet, hlen, Nat.le_of_not_lt hle,
              (Option.some.inj h).symm⟩)

/-- A rule that does not overflow matches what its text stands for. -/
theorem matchRule_iff_denotes {text : List Char} {rule : NetworkRule}
    (h : makeRule parse text = some rule) (hfits : ¬Overflows parse text) (ip : IPAddress) :
    matchRule ip rule = true ↔ Denotes parse text ip := by
  obtain ⟨a, b, first, last, hcut, hfirst, hlast, hfamily, rfl⟩ | ⟨hrange, hcut, net, hnet, rfl⟩ |
    ⟨hrange, a, len, net, n, hcut, hnet, hlen, hle, rfl⟩ := makeRule_cases h
  · rw [matchRule_range_iff hfamily]
    constructor
    · rintro ⟨hip, hle, hle'⟩
      exact .range hcut hfirst hlast hip (hfamily.symm.trans hip) hle hle'
    · rintro (⟨hcut', hfirst', hlast', hip, -, hle, hle'⟩ | ⟨hnone, -⟩ | ⟨hnone, -⟩)
      · cases hcut.symm.trans hcut'
        cases hfirst.symm.trans hfirst'
        cases hlast.symm.trans hlast'
        exact ⟨hip, hle, hle'⟩
      · cases hcut.symm.trans hnone
      · cases hcut.symm.trans hnone
  · rw [Nat.mul_comm, matchRule_network_iff (Nat.le_refl _), Nat.sub_self, Nat.pow_zero, Nat.div_one,
      Nat.div_one]
    constructor
    · rintro ⟨hip, hvalue⟩
      cases (IPAddress.value_inj hip.symm).mp hvalue
      exact .single hrange hcut hnet
    · rintro (⟨hcut', -⟩ | ⟨-, hcut', -⟩ | ⟨-, -, hip⟩)
      · cases hrange.symm.trans hcut'
      · cases hcut.symm.trans hcut'
      · cases hnet.symm.trans hip
        exact ⟨rfl, rfl⟩
  · have hsmall : n % 4294967296 = n := by
      apply Nat.mod_eq_of_lt
      by_contra hge
      exact hfits ⟨hrange, a, len, net, n, hcut, hnet, hlen, Nat.le_of_not_lt hge, hle⟩
    rw [hsmall, Nat.mul_comm] at hle
    rw [hsmall, matchRule_network_iff hle]
    constructor
    · rintro ⟨hip, hbits⟩
      exact .network hrange hcut hnet hlen hle hip hbits
    · rintro (⟨hcut', -⟩ | ⟨-, hcut', hnet', hlen', -, hip, hbits⟩ | ⟨-, hcut', -⟩)
      · cases hrange.symm.trans hcut'
      · cases hcut.symm.trans hcut'
        cases hnet.symm.trans hnet'
        cases hlen.symm.trans hlen'
        exact ⟨hip, hbits⟩
      · cases hcut.symm.trans hcut'

/-- One that overflows matches at least the address it names, and stands for none. -/
theorem Overflows.exists_matchRule {text : List Char} (h : Overflows parse text) :
    ∃ rule ip, makeRule parse text = some rule ∧ matchRule ip rule = true ∧ ¬Denotes parse text ip := by
  obtain ⟨hrange, a, len, net, n, hcut, hnet, hlen, hge, hle⟩ := h
  refine ⟨⟨net, n % 4294967296, false, .wildcard⟩, net, ?_, ?_, ?_⟩
  · unfold makeRule
    rw [hrange, hcut]
    dsimp only
    rw [hnet, hlen]
    exact if_neg (Nat.not_lt_of_le hle)
  · rw [Nat.mul_comm] at hle
    exact (matchRule_network_iff hle net).mpr ⟨rfl, rfl⟩
  · rintro (⟨hcut', -⟩ | ⟨-, hcut', hnet', hlen', hn, -⟩ | ⟨-, hcut', -⟩)
    · cases hrange.symm.trans hcut'
    · cases hcut.symm.trans hcut'
      cases hnet.symm.trans hnet'
      cases hlen.symm.trans hlen'
      have hlength : net.length ≤ 16 := by
        unfold IPAddress.length
        cases net.family with
        | IPv4 => decide
        | IPv6 => decide
      omega
    · cases hcut.symm.trans hcut'

/-- What cannot be read stands for no address. -/
theorem Denotes.makeRule_ne_none {text : List Char} {ip : IPAddress} (h : Denotes parse text ip) :
    makeRule parse text ≠ none := by
  unfold makeRule
  cases h with
  | range hcut hfirst hlast hfamily hfamily' hle hle' =>
    rename_i first last
    have hends : first.family = last.family := hfamily.trans hfamily'.symm
    have horder : memcmp first.addr last.addr ≠ .gt := by
      rw [memcmp_eq_compare (IPAddress.length_addr_eq hends)]
      exact fun hgt => Nat.not_lt_of_le (hle.trans hle') (Nat.compare_eq_gt.mp hgt)
    rw [hcut]
    dsimp only
    rw [hfirst, hlast]
    dsimp only
    rw [if_neg (not_not.mpr hends), if_neg horder]
    exact Option.some_ne_none _
  | network hrange hcut hnet hlen hn hfamily hbits =>
    rename_i n
    rw [hrange, hcut]
    dsimp only
    rw [hnet, hlen]
    dsimp only
    have hmod : n % 4294967296 ≤ n := Nat.mod_le _ _
    rw [if_neg (by omega)]
    exact Option.some_ne_none _
  | single hrange hcut hip =>
    rw [hrange, hcut]
    dsimp only
    rw [hip]
    exact Option.some_ne_none _

/-! ## The lists -/

theorem mem_buildRules_iff {texts : List (List Char)} {rule : NetworkRule} :
    rule ∈ buildRules parse texts ↔
      ∃ v ∈ texts, ¬v.all blank ∧ makeRule parse (trim v) = some rule := by
  unfold buildRules
  rw [List.mem_filterMap]
  refine exists_congr fun v => and_congr_right fun _ => ?_
  by_cases hblank : v.all blank = true
  · rw [if_pos hblank]
    exact iff_of_false (Option.some_ne_none rule).symm fun h => h.1 hblank
  · rw [if_neg hblank]
    exact (and_iff_right hblank).symm

theorem inRules_buildRules_iff {texts : List (List Char)}
    (hfits : ∀ v ∈ texts, ¬v.all blank → ¬Overflows parse (trim v)) (ip : IPAddress) :
    inRules ip (buildRules parse texts) = true ↔ Listed parse texts ip := by
  unfold inRules
  rw [List.any_eq_true]
  constructor
  · rintro ⟨rule, hrule, hmatch⟩
    obtain ⟨v, hv, hblank, hmake⟩ := mem_buildRules_iff.mp hrule
    exact ⟨v, hv, hblank, (matchRule_iff_denotes hmake (hfits v hv hblank) ip).mp hmatch⟩
  · rintro ⟨v, hv, hblank, hdenotes⟩
    obtain ⟨rule, hmake⟩ := Option.ne_none_iff_exists'.mp hdenotes.makeRule_ne_none
    exact ⟨rule, mem_buildRules_iff.mpr ⟨v, hv, hblank, hmake⟩,
      (matchRule_iff_denotes hmake (hfits v hv hblank) ip).mpr hdenotes⟩

theorem Listed.buildRules_ne_nil {texts : List (List Char)} {ip : IPAddress}
    (h : Listed parse texts ip) : buildRules parse texts ≠ [] := by
  obtain ⟨v, hv, hblank, hdenotes⟩ := h
  obtain ⟨rule, hmake⟩ := Option.ne_none_iff_exists'.mp hdenotes.makeRule_ne_none
  exact List.ne_nil_of_mem (mem_buildRules_iff.mpr ⟨v, hv, hblank, hmake⟩)

theorem given_of_buildRules_ne_nil {texts : List (List Char)} (h : buildRules parse texts ≠ []) :
    Given texts := by
  obtain ⟨rule, hrule⟩ := List.exists_mem_of_ne_nil _ h
  obtain ⟨v, hv, hblank, -⟩ := mem_buildRules_iff.mp hrule
  exact ⟨v, hv, hblank⟩

theorem isDenied_iff (ip : IPAddress) (wl bl : List NetworkRule) :
    isDenied ip wl bl = true ↔ inRules ip bl = true ∨ wl ≠ [] ∧ ¬inRules ip wl = true := by
  unfold isDenied
  cases inRules ip bl with
  | true => simp
  | false => simp

/-! ## Requests -/

namespace UHttpServer

variable {s : UHttpServer} {required : Bool} {tokens : List (List Char)} {req : HTTPServerRequest}

theorem handleRequest_createRequestHandler (s : UHttpServer) (required : Bool)
    (tokens : List (List Char)) (req : HTTPServerRequest) :
    handleRequest parse (s.createRequestHandler parse required tokens) req =
      if required && !validateBearer req.authorization tokens then .unauthorized
      else if isDenied (clientIP parse (s.createRequestHandler parse required tokens) req)
        (buildRules parse s.whitelist) (buildRules parse s.blacklist) then .forbidden
      else .handled := rfl

theorem handleRequest_eq_forbidden_iff (hauth : Authorized required tokens req) :
    handleRequest parse (s.createRequestHandler parse required tokens) req = .forbidden ↔
      isDenied (clientIP parse (s.createRequestHandler parse required tokens) req)
        (buildRules parse s.whitelist) (buildRules parse s.blacklist) = true := by
  have hbearer : ¬(required && !validateBearer req.authorization tokens) = true := by
    rw [Bool.and_eq_true, Bool.not_eq_true']
    rintro ⟨hrequired, hvalid⟩
    exact Bool.false_ne_true (hvalid.symm.trans (hauth hrequired))
  rw [handleRequest_createRequestHandler, if_neg hbearer]
  split
  · rename_i hdenied
    exact iff_of_true rfl hdenied
  · rename_i hdenied
    exact iff_of_false Response.noConfusion hdenied

theorem clientIP_of_not_listed
    (hfits : ∀ v ∈ s.trustedProxies, ¬v.all blank → ¬Overflows parse (trim v))
    (hpeer : ¬Listed parse s.trustedProxies req.clientAddress) :
    clientIP parse (s.createRequestHandler parse required tokens) req = req.clientAddress := by
  unfold clientIP
  exact if_neg fun h => hpeer ((inRules_buildRules_iff hfits _).mp h)

theorem clientIP_of_judged (hfits : ∀ v ∈ s.trustedProxies, ¬v.all blank → ¬Overflows parse (trim v))
    {ip : IPAddress} (h : s.Judged parse req ip) :
    clientIP parse (s.createRequestHandler parse required tokens) req = ip := by
  obtain ⟨hpeer, rfl⟩ | ⟨hpeer, rfl⟩ := h
  · exact clientIP_of_not_listed hfits hpeer
  · unfold clientIP
    exact if_pos ((inRules_buildRules_iff hfits _).mpr hpeer)

/-- A request without the headers is judged by the address it comes from. -/
theorem judged_of_no_headers (parse : List Char → Option IPAddress) (s : UHttpServer) (ip : IPAddress) :
    s.Judged parse ⟨ip, [], [], []⟩ ip := by
  by_cases hpeer : Listed parse s.trustedProxies ip
  · exact .inr ⟨hpeer, rfl⟩
  · exact .inl ⟨hpeer, rfl⟩

theorem Readable.right (h : s.Readable parse) : s.Right parse := by
  have hwl : ∀ v ∈ s.whitelist, ¬v.all blank → ¬Overflows parse (trim v) := fun v hv =>
    h.fits v (List.mem_append_left _ (List.mem_append_left _ hv))
  have hbl : ∀ v ∈ s.blacklist, ¬v.all blank → ¬Overflows parse (trim v) := fun v hv =>
    h.fits v (List.mem_append_left _ (List.mem_append_right _ hv))
  have htrusted : ∀ v ∈ s.trustedProxies, ¬v.all blank → ¬Overflows parse (trim v) := fun v hv =>
    h.fits v (List.mem_append_right _ hv)
  constructor
  · exact fun v hv hblank rule hrule ip => matchRule_iff_denotes hrule (h.fits v hv hblank) ip
  · intro required tokens req ip hjudged hauth
    rw [handleRequest_eq_forbidden_iff hauth, clientIP_of_judged htrusted hjudged, isDenied_iff,
      inRules_buildRules_iff hbl, inRules_buildRules_iff hwl]
    constructor
    · rintro (hlisted | ⟨hrules, hnot⟩)
      · exact .inl hlisted
      · exact .inr ⟨given_of_buildRules_ne_nil hrules, hnot⟩
    · rintro (hlisted | ⟨hgiven, hnot⟩)
      · exact .inl hlisted
      · obtain hrules | hall := h.whitelist hgiven
        · exact .inr ⟨hrules, hnot⟩
        · exact .inl (hall ip)
  · intro required tokens req xff xri hpeer
    have hpeer' : ¬Listed parse s.trustedProxies
        { req with xForwardedFor := xff, xRealIP := xri }.clientAddress := hpeer
    rw [handleRequest_createRequestHandler, handleRequest_createRequestHandler,
      clientIP_of_not_listed htrusted hpeer, clientIP_of_not_listed htrusted hpeer']

theorem Right.readable (h : s.Right parse) : s.Readable parse := by
  have hfits : ∀ v ∈ s.texts, ¬v.all blank → ¬Overflows parse (trim v) := by
    intro v hv hblank hover
    obtain ⟨rule, ip, hrule, hmatch, hnot⟩ := hover.exists_matchRule
    exact hnot ((h.rules v hv hblank rule hrule ip).mp hmatch)
  refine ⟨hfits, fun hgiven => ?_⟩
  by_contra hneither
  rw [not_or, not_not, not_forall] at hneither
  obtain ⟨hnil, ip, hip⟩ := hneither
  have hbl : ∀ v ∈ s.blacklist, ¬v.all blank → ¬Overflows parse (trim v) := fun v hv =>
    hfits v (List.mem_append_left _ (List.mem_append_right _ hv))
  have htrusted : ∀ v ∈ s.trustedProxies, ¬v.all blank → ¬Overflows parse (trim v) := fun v hv =>
    hfits v (List.mem_append_right _ hv)
  have hauth : Authorized false [] ⟨ip, [], [], []⟩ := fun hfalse => absurd hfalse Bool.false_ne_true
  have hjudged := judged_of_no_headers parse s ip
  -- nobody is in a whitelist without rules, and nobody is kept out by one
  have hwl : ¬Listed parse s.whitelist ip := fun hlisted => hlisted.buildRules_ne_nil hnil
  have hforbidden := (h.refused false [] _ ip hjudged hauth).mpr (.inr ⟨hgiven, hwl⟩)
  rw [handleRequest_eq_forbidden_iff hauth, clientIP_of_judged htrusted hjudged, isDenied_iff,
    inRules_buildRules_iff hbl] at hforbidden
  obtain hlisted | ⟨hrules, -⟩ := hforbidden
  · exact hip hlisted
  · exact hrules hnil

/-- The rules are kept exactly when no network overflows, and an entry of a whitelist can be read. -/
theorem right_iff_readable (parse : List Char → Option IPAddress) (s : UHttpServer) :
    s.Right parse ↔ s.Readable parse := ⟨Right.readable, Readable.right⟩

end UHttpServer

/-- The address of a network, as the library reads it. -/
def tenNet (text : List Char) : Option IPAddress :=
  if text = "10.0.0.0".toList then some ⟨.IPv4, [10, 0, 0, 0], rfl⟩ else none

/-- A whitelist of a network that is too long. -/
def mistyped : UHttpServer := ⟨["10.0.0.0/33".toList], [], []⟩

/-- Any address is let in. -/
theorem not_right_mistyped : ¬mistyped.Right tenNet := by
  intro h
  have hjudged := UHttpServer.judged_of_no_headers tenNet mistyped ⟨.IPv4, [8, 8, 8, 8], rfl⟩
  have hgiven : Given mistyped.whitelist := ⟨_, List.mem_singleton_self _, by decide⟩
  have hrules : buildRules tenNet mistyped.whitelist = [] := by decide
  have hforbidden := (h.refused false [] _ _ hjudged fun hfalse => absurd hfalse Bool.false_ne_true).mpr
    (.inr ⟨hgiven, fun hlisted => hlisted.buildRules_ne_nil hrules⟩)
  revert hforbidden
  decide

end Uniset.UHttp
