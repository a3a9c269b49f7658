import Mathlib.Data.Nat.Notation
import Mathlib.Tactic.Common

/-!
# Addresses of the Internet and their classes

Addresses of both families as bit vectors, the networks they belong to, and the classes of special
addresses of the IANA registries, as the module `ipaddress` of Python 3.14 has them.  An IPv6
address that maps an IPv4 address has the classes of that address; other forms carry one as well.

## Main definitions

* `Ip.Network`, `Ip.Network.contains`: networks.
* `Ip.Address`: an address, with the zone of an IPv6 address.
* `Ip.Address.isPrivate`, ..., `Ip.Address.isShared`: the classes.
* `Ip.Address.embedded`: the IPv4 address that an IPv6 address maps, translates to or carries.
* `Ip.Address.GloballyRoutable`: no special address, and none that carries one.

## Main results

* `Ip.Network.contains_eq_of_longer`: networks are nested or disjoint.
* `Ip.Address.globallyRoutable_iff`: which addresses outside the other classes are routable.
-/

namespace Ip

/-! ### Networks -/

/-- A network: its address and how many bits of it count. -/
structure Network (w : ℕ) where
  address : BitVec w
  prefixLength : ℕ

namespace Network

variable {w : ℕ} {b c : Network w} {a : BitVec w}

def netmask (b : Network w) : BitVec w := BitVec.allOnes w <<< (w - b.prefixLength)

def contains (b : Network w) (a : BitVec w) : Bool := a &&& b.netmask == b.address

/-- An address of a longer network is in the shorter one exactly when the network is. -/
theorem contains_eq_of_longer (hmask : b.netmask &&& c.netmask = c.netmask)
    (ha : b.contains a = true) : c.contains a = c.contains b.address := by
  have haddress : a &&& b.netmask = b.address := by simpa [contains] using ha
  have hsame : a &&& c.netmask = b.address &&& c.netmask := by
    rw [← haddress, BitVec.and_assoc, hmask]
  rw [contains, contains, hsame]

end Network

/-- `a.b.c.d`. -/
def ipv4 (a b c d : ℕ) : BitVec 32 := BitVec.ofNat 32 (((a * 256 + b) * 256 + c) * 256 + d)

/-- The address that begins with some groups of sixteen bits and goes on with zeros. -/
def ipv6 (groups : List ℕ) : BitVec 128 :=
  BitVec.ofNat 128 (groups.foldl (fun n g => n * 65536 + g) 0) <<< (16 * (8 - groups.length))

/-! ### Special networks -/

def privateNetworks4 : List (Network 32) :=
  [⟨ipv4 0 0 0 0, 8⟩, ⟨ipv4 10 0 0 0, 8⟩, ⟨ipv4 127 0 0 0, 8⟩, ⟨ipv4 169 254 0 0, 16⟩,
    ⟨ipv4 172 16 0 0, 12⟩, ⟨ipv4 192 0 0 0, 24⟩, ⟨ipv4 192 0 0 170, 31⟩, ⟨ipv4 192 0 2 0, 24⟩,
    ⟨ipv4 192 168 0 0, 16⟩, ⟨ipv4 198 18 0 0, 15⟩, ⟨ipv4 198 51 100 0, 24⟩,
    ⟨ipv4 203 0 113 0, 24⟩, ⟨ipv4 240 0 0 0, 4⟩, ⟨ipv4 255 255 255 255, 32⟩]

def privateExceptions4 : List (Network 32) := [⟨ipv4 192 0 0 9, 32⟩, ⟨ipv4 192 0 0 10, 32⟩]

def sixToFourNetwork : Network 128 := ⟨ipv6 [0x2002], 16⟩

def nat64Network : Network 128 := ⟨ipv6 [0x64, 0xff9b], 96⟩

def privateNetworks6 : List (Network 128) :=
  [⟨1, 128⟩, ⟨0, 128⟩, ⟨ipv6 [0, 0, 0, 0, 0, 0xffff], 96⟩, ⟨ipv6 [0x64, 0xff9b, 1], 48⟩,
    ⟨ipv6 [0x100], 64⟩, ⟨ipv6 [0x2001], 23⟩, ⟨ipv6 [0x2001, 0xdb8], 32⟩, sixToFourNetwork,
    ⟨ipv6 [0x3fff], 20⟩, ⟨ipv6 [0xfc00], 7⟩, ⟨ipv6 [0xfe80], 10⟩]

def privateExceptions6 : List (Network 128) :=
  [⟨ipv6 [0x2001, 1, 0, 0, 0, 0, 0, 1], 128⟩, ⟨ipv6 [0x2001, 1, 0, 0, 0, 0, 0, 2], 128⟩,
    ⟨ipv6 [0x2001, 3], 32⟩, ⟨ipv6 [0x2001, 4, 0x112], 48⟩, ⟨ipv6 [0x2001, 0x20], 28⟩,
    ⟨ipv6 [0x2001, 0x30], 28⟩]

def reservedNetworks6 : List (Network 128) :=
  [⟨0, 8⟩, ⟨ipv6 [0x100], 8⟩, ⟨ipv6 [0x200], 7⟩, ⟨ipv6 [0x400], 6⟩, ⟨ipv6 [0x800], 5⟩,
    ⟨ipv6 [0x1000], 4⟩, ⟨ipv6 [0x4000], 3⟩, ⟨ipv6 [0x6000], 3⟩, ⟨ipv6 [0x8000], 3⟩,
    ⟨ipv6 [0xa000], 3⟩, ⟨ipv6 [0xc000], 3⟩, ⟨ipv6 [0xe000], 4⟩, ⟨ipv6 [0xf000], 5⟩,
    ⟨ipv6 [0xf800], 6⟩, ⟨ipv6 [0xfe00], 9⟩]

/-! ### Addresses and their classes -/

/-- An address; that of IPv6 with the zone it was written with. -/
inductive Address
  | v4 (ip : BitVec 32)
  | v6 (ip : BitVec 128) (scopeId : Option String)
  deriving DecidableEq

/-- The IPv4 address that an IPv6 address maps. -/
def ipv4Mapped (ip : BitVec 128) : Option (BitVec 32) :=
  if ip >>> 32 = 0xffff then some (ip.setWidth 32) else none

namespace Address

/-- The address itself, or the IPv4 address it maps. -/
def unmapped : Address → Address
  | v4 ip => v4 ip
  | v6 ip scopeId =>
    match ipv4Mapped ip with
    | some ip => v4 ip
    | none => v6 ip scopeId

variable (a : Address)

def isPrivate : Bool :=
  match a.unmapped with
  | v4 ip => privateNetworks4.any (·.contains ip) && privateExceptions4.all (!·.contains ip)
  | v6 ip _ => privateNetworks6.any (·.contains ip) && privateExceptions6.all (!·.contains ip)

def isLoopback : Bool :=
  match a.unmapped with
  | v4 ip => (⟨ipv4 127 0 0 0, 8⟩ : Network 32).contains ip
  | v6 ip _ => ip == 1

def isLinkLocal : Bool :=
  match a.unmapped with
  | v4 ip => (⟨ipv4 169 254 0 0, 16⟩ : Network 32).contains ip
  | v6 ip _ => (⟨ipv6 [0xfe80], 10⟩ : Network 128).contains ip

def isReserved : Bool :=
  match a.unmapped with
  | v4 ip => (⟨ipv4 240 0 0 0, 4⟩ : Network 32).contains ip
  | v6 ip _ => reservedNetworks6.any (·.contains ip)

def isMulticast : Bool :=
  match a.unmapped with
  | v4 ip => (⟨ipv4 224 0 0 0, 4⟩ : Network 32).contains ip
  | v6 ip _ => (⟨ipv6 [0xff00], 8⟩ : Network 128).contains ip

def isUnspecified : Bool :=
  match a.unmapped with
  | v4 ip => ip == 0
  | v6 ip _ => ip == 0

/-- The address space that providers share between their customers. -/
def isShared : Bool :=
  match a.unmapped with
  | v4 ip => (⟨ipv4 100 64 0 0, 10⟩ : Network 32).contains ip
  | v6 _ _ => false

/-- An address of one of the special classes but the shared one. -/
def isClassified : Bool :=
  a.isPrivate || a.isLoopback || a.isLinkLocal || a.isReserved || a.isMulticast || a.isUnspecified

/-- The IPv4 address that an IPv6 address maps, translates to or carries. -/
def embedded : Address → Option (BitVec 32)
  | v4 _ => none
  | v6 ip _ =>
    if (ipv4Mapped ip).isSome then ipv4Mapped ip
    else if nat64Network.contains ip then some (ip.setWidth 32)
    else if sixToFourNetwork.contains ip then some ((ip >>> 80).setWidth 32)
    else none

/-- Neither the address nor an IPv4 address it carries is special. -/
structure GloballyRoutable : Prop where
  isClassified_eq_false : a.isClassified = false
  isShared_eq_false : a.isShared = false
  embedded : ∀ ip ∈ a.embedded, (v4 ip).isClassified = false ∧ (v4 ip).isShared = false

variable {a}

theorem unmapped_of_mapped {ip : BitVec 128} {ip4 : BitVec 32} (h : ipv4Mapped ip = some ip4)
    (scopeId : Option String) : (v6 ip scopeId).unmapped = v4 ip4 := by
  rw [unmapped, h]

theorem unmapped_of_not_mapped {ip : BitVec 128} (h : ipv4Mapped ip = none)
    (scopeId : Option String) : (v6 ip scopeId).unmapped = v6 ip scopeId := by
  rw [unmapped, h]

/-- The classes are those of the address without its mapping. -/
theorem isClassified_unmapped (a : Address) : a.unmapped.isClassified = a.isClassified := by
  have htwice : a.unmapped.unmapped = a.unmapped := by
    cases a with
    | v4 ip => rfl
    | v6 ip scopeId =>
      cases h : ipv4Mapped ip with
      | some ip4 => rw [unmapped_of_mapped h]; rfl
      | none => rw [unmapped_of_not_mapped h, unmapped_of_not_mapped h]
  simp only [isClassified, isPrivate, isLoopback, isLinkLocal, isReserved, isMulticast,
    isUnspecified, htwice]

/-- An address that is translated to IPv4 is reserved. -/
theorem isReserved_of_nat64 {ip : BitVec 128} (hmap : ipv4Mapped ip = none)
    (h : nat64Network.contains ip = true) (scopeId : Option String) :
    (v6 ip scopeId).isReserved = true := by
  have hreserved : (⟨0, 8⟩ : Network 128).contains ip = true := by
    rw [Network.contains_eq_of_longer (b := nat64Network) (by decide) h]
    decide
  rw [isReserved, unmapped_of_not_mapped hmap]
  exact List.any_eq_true.mpr ⟨_, List.mem_cons_self, hreserved⟩

/-- An address that carries an IPv4 address behind `2002` is private. -/
theorem isPrivate_of_sixToFour {ip : BitVec 128} (hmap : ipv4Mapped ip = none)
    (h : sixToFourNetwork.contains ip = true) (scopeId : Option String) :
    (v6 ip scopeId).isPrivate = true := by
  have hexcept : ∀ e ∈ privateExceptions6, e.contains ip = false := by
    intro e he
    have hlonger : ∀ e ∈ privateExceptions6, e.netmask &&& sixToFourNetwork.netmask =
        sixToFourNetwork.netmask ∧ sixToFourNetwork.contains e.address = false := by decide
    obtain ⟨hmask, hdisjoint⟩ := hlonger e he
    rw [Bool.eq_false_iff]
    intro hcontains
    rw [Network.contains_eq_of_longer hmask hcontains, hdisjoint] at h
    exact Bool.false_ne_true h
  rw [isPrivate, unmapped_of_not_mapped hmap, Bool.and_eq_true, List.any_eq_true, List.all_eq_true]
  exact ⟨⟨sixToFourNetwork, by simp [privateNetworks6], h⟩, fun e he => by simp [hexcept e he]⟩

/-- Outside the other classes, an address is routable unless it is shared. -/
theorem globallyRoutable_iff (h : a.isClassified = false) :
    a.GloballyRoutable ↔ a.isShared = false := by
  refine ⟨fun hroutable => hroutable.isShared_eq_false, fun hshared => ⟨h, hshared, ?_⟩⟩
  intro ip hip
  cases a with
  | v4 ip4 => cases hip
  | v6 ip6 scopeId =>
    cases hmap : ipv4Mapped ip6 with
    | some ip4 =>
      rw [embedded, hmap, if_pos Option.isSome_some, Option.mem_some_iff] at hip
      subst hip
      have hunmapped := unmapped_of_mapped hmap scopeId
      refine ⟨?_, ?_⟩
      · rw [← hunmapped, isClassified_unmapped, h]
      · rw [isShared, hunmapped] at hshared
        exact hshared
    | none =>
      rw [embedded, hmap] at hip
      simp only [Option.isSome_none, Bool.false_eq_true, if_false] at hip
      simp only [isClassified, Bool.or_eq_false_iff] at h
      split at hip
      · next hnat64 =>
        rw [isReserved_of_nat64 hmap hnat64] at h
        simp at h
      · split at hip
        · next hsixToFour =>
          rw [isPrivate_of_sixToFour hmap hsixToFour] at h
          simp at h
        · cases hip

end Address

end Ip
