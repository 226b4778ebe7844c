import CryptoGateway.Order.Dictionary
import Mathlib.Data.List.Lex

/-!
`gateway-webhook/src/lib.rs`: the addresses a delivery may connect to. The resolver's answers are
approved as a whole, when each is a public address on the HTTPS port.
-/
namespace CryptoGateway.Webhooks

structure Ipv4Addr where
  a : UInt8
  b : UInt8
  c : UInt8
  d : UInt8
deriving DecidableEq, Repr

structure Ipv6Addr where
  s0 : UInt16
  s1 : UInt16
  s2 : UInt16
  s3 : UInt16
  s4 : UInt16
  s5 : UInt16
  s6 : UInt16
  s7 : UInt16
deriving DecidableEq, Repr

inductive IpAddr where
  | v4 (ip : Ipv4Addr)
  | v6 (ip : Ipv6Addr)
deriving DecidableEq, Repr

inductive SocketAddr where
  | v4 (ip : Ipv4Addr) (port : UInt16)
  | v6 (ip : Ipv6Addr) (port : UInt16) (flowinfo scopeId : UInt32)
deriving DecidableEq, Repr

namespace SocketAddr

def ip : SocketAddr → IpAddr
  | .v4 ip _ => .v4 ip
  | .v6 ip _ _ _ => .v6 ip

def port : SocketAddr → UInt16
  | .v4 _ port => port
  | .v6 _ port _ _ => port

/-- The order of a `BTreeSet` of addresses is that of these numbers. -/
def key : SocketAddr → List Nat
  | .v4 ip port => [0, ip.a.toNat, ip.b.toNat, ip.c.toNat, ip.d.toNat, port.toNat]
  | .v6 ip port flowinfo scopeId =>
      [1, ip.s0.toNat, ip.s1.toNat, ip.s2.toNat, ip.s3.toNat, ip.s4.toNat, ip.s5.toNat, ip.s6.toNat,
        ip.s7.toNat, port.toNat, flowinfo.toNat, scopeId.toNat]

theorem key_injective : Function.Injective key := by
  intro x y same
  cases x with
  | v4 ip port =>
    cases y with
    | v4 ip' port' =>
      simp only [key, List.cons.injEq, UInt8.toNat_inj, UInt16.toNat_inj, and_true,
        true_and] at same
      obtain ⟨a, b, c, d, port⟩ := same
      rw [SocketAddr.v4.injEq, Ipv4Addr.mk.injEq]
      exact ⟨⟨a, b, c, d⟩, port⟩
    | v6 => simp [key] at same
  | v6 ip port flowinfo scopeId =>
    cases y with
    | v4 => simp [key] at same
    | v6 ip' port' flowinfo' scopeId' =>
      simp only [key, List.cons.injEq, UInt16.toNat_inj, UInt32.toNat_inj, and_true,
        true_and] at same
      obtain ⟨s0, s1, s2, s3, s4, s5, s6, s7, port, flowinfo, scopeId⟩ := same
      rw [SocketAddr.v6.injEq, Ipv6Addr.mk.injEq]
      exact ⟨⟨s0, s1, s2, s3, s4, s5, s6, s7⟩, port, flowinfo, scopeId⟩

end SocketAddr

def isPublicIpv4 (ip : Ipv4Addr) : Bool :=
  !(ip.a = 0 || ip.a = 10 || ip.a = 127 || 224 ≤ ip.a ||
    (ip.a = 100 && 64 ≤ ip.b && ip.b ≤ 127) ||
    (ip.a = 169 && ip.b = 254) ||
    (ip.a = 172 && 16 ≤ ip.b && ip.b ≤ 31) ||
    (ip.a = 192 && ip.b = 0 && (ip.c = 0 || ip.c = 2)) ||
    (ip.a = 192 && ip.b = 88 && ip.c = 99) ||
    (ip.a = 192 && ip.b = 168) ||
    (ip.a = 198 && 18 ≤ ip.b && ip.b ≤ 19) ||
    (ip.a = 198 && ip.b = 51 && ip.c = 100) ||
    (ip.a = 203 && ip.b = 0 && ip.c = 113))

def Ipv4Addr.ofSegments (high low : UInt16) : Ipv4Addr :=
  ⟨(high >>> 8).toUInt8, high.toUInt8, (low >>> 8).toUInt8, low.toUInt8⟩

def mappedIpv4 (ip : Ipv6Addr) : Option Ipv4Addr :=
  if ip.s0 = 0 ∧ ip.s1 = 0 ∧ ip.s2 = 0 ∧ ip.s3 = 0 ∧ ip.s4 = 0 ∧ ip.s5 = 0xffff then
    some (.ofSegments ip.s6 ip.s7)
  else none

/-- Public unicast is allocated from `2000::/3`, less the special and documentation ranges. -/
def isPublicIpv6 (ip : Ipv6Addr) : Bool :=
  if ¬ (0x2000 ≤ ip.s0 ∧ ip.s0 ≤ 0x3fff) then false
  else
    let ianaSpecial2001 := ip.s0 = 0x2001 && ip.s1 ≤ 0x01ff
    let documentation2001 := ip.s0 = 0x2001 && ip.s1 = 0x0db8
    let documentation3fff := ip.s0 = 0x3fff && ip.s1 ≤ 0x0fff
    !ianaSpecial2001 && !documentation2001 && !documentation3fff

def isPublicIp : IpAddr → Bool
  | .v4 ip => isPublicIpv4 ip
  | .v6 ip =>
    match mappedIpv4 ip with
    | some ip4 => isPublicIpv4 ip4
    | none => isPublicIpv6 ip

inductive SafeDeliveryError where
  | noAddresses | nonPublicAddress
deriving DecidableEq, Repr

def webhookPort : UInt16 := 443

/-- The answers in a `BTreeSet`. -/
def unique (answers : List SocketAddr) : List SocketAddr :=
  (Dictionary.collect (answers.map fun address => (address.key, address))).map (·.2)

def approveAnswers (answers : List SocketAddr) : Except SafeDeliveryError (List SocketAddr) :=
  if (unique answers).isEmpty then .error .noAddresses
  else if (unique answers).any fun address =>
      address.port ≠ webhookPort || !isPublicIp address.ip then .error .nonPublicAddress
  else .ok (unique answers)

section Set
variable {answers answers' : List SocketAddr}

theorem keyed_single : ∀ x ∈ answers.map fun address => (address.key, address),
    ∀ y ∈ answers.map fun address => (address.key, address), x.1 = y.1 → x = y := by
  simp only [List.mem_map]
  rintro _ ⟨a, -, rfl⟩ _ ⟨b, -, rfl⟩ same
  rw [SocketAddr.key_injective same]

theorem mem_unique {address : SocketAddr} : address ∈ unique answers ↔ address ∈ answers := by
  simp [unique, Dictionary.mem_collect keyed_single]

theorem unique_nodup : (unique answers).Nodup := by
  have ordered := Dictionary.collect_ordered (answers.map fun address => (address.key, address))
  refine List.Nodup.map_on (fun x left y right same => ?_)
    (List.Pairwise.imp (fun before eq => absurd (congrArg Prod.fst eq) before.ne) ordered)
  obtain ⟨a, -, rfl⟩ := List.mem_map.mp ((Dictionary.mem_collect keyed_single).mp left)
  obtain ⟨b, -, rfl⟩ := List.mem_map.mp ((Dictionary.mem_collect keyed_single).mp right)
  simp only at same
  rw [same]

theorem unique_ext (same : ∀ address, address ∈ answers ↔ address ∈ answers') :
    unique answers = unique answers' := by
  unfold unique
  rw [Dictionary.collect_ext (fun x => ?_) keyed_single]
  simp only [List.mem_map, same]

def Approvable (answers : List SocketAddr) : Prop :=
  answers ≠ [] ∧ ∀ address ∈ answers, address.port = webhookPort ∧ isPublicIp address.ip = true

theorem approveAnswers_ok_iff {approved : List SocketAddr} :
    approveAnswers answers = .ok approved ↔ Approvable answers ∧ approved = unique answers := by
  have empty : unique answers = [] ↔ answers = [] := by
    simp only [List.eq_nil_iff_forall_not_mem, mem_unique]
  have bad : ((unique answers).any fun address =>
      address.port ≠ webhookPort || !isPublicIp address.ip) = true ↔
        ¬ ∀ address ∈ answers, address.port = webhookPort ∧ isPublicIp address.ip = true := by
    simp only [List.any_eq_true, mem_unique, Bool.or_eq_true, decide_eq_true_eq, Bool.not_eq_true',
      not_forall, exists_prop, not_and_or, Bool.not_eq_true, ne_eq]
  unfold approveAnswers Approvable
  split
  · rename_i none_
    simp [empty.mp (List.isEmpty_iff.mp none_)]
  · rename_i some_
    rw [List.isEmpty_iff, empty] at some_
    split
    · rename_i refused
      simp only [reduceCtorEq, false_iff, not_and]
      exact fun approvable => absurd approvable.2 (bad.mp refused)
    · rename_i public_
      rw [bad, not_not] at public_
      simp only [Except.ok.injEq]
      exact ⟨fun eq => ⟨⟨some_, public_⟩, eq.symm⟩, fun given => given.2.symm⟩

end Set

/-- An IPv6 address that routers take for an IPv4 address: mapped, 6to4 with the address in
    bits 16 to 47, Teredo with its server's address and its client's, which is inverted, or
    behind the well-known or the local prefix of NAT64. -/
inductive Ipv6Addr.StandsFor : Ipv6Addr → Ipv4Addr → Prop
  | mapped (high low : UInt16) :
      StandsFor ⟨0, 0, 0, 0, 0, 0xffff, high, low⟩ (.ofSegments high low)
  | sixToFour (high low s3 s4 s5 s6 s7 : UInt16) :
      StandsFor ⟨0x2002, high, low, s3, s4, s5, s6, s7⟩ (.ofSegments high low)
  | teredoServer (high low s4 s5 s6 s7 : UInt16) :
      StandsFor ⟨0x2001, 0, high, low, s4, s5, s6, s7⟩ (.ofSegments high low)
  | teredoClient (s2 s3 s4 s5 high low : UInt16) :
      StandsFor ⟨0x2001, 0, s2, s3, s4, s5, high, low⟩ (.ofSegments (~~~high) (~~~low))
  | nat64 (high low : UInt16) :
      StandsFor ⟨0x64, 0xff9b, 0, 0, 0, 0, high, low⟩ (.ofSegments high low)
  | localNat64 (s3 s4 s5 high low : UInt16) :
      StandsFor ⟨0x64, 0xff9b, 1, s3, s4, s5, high, low⟩ (.ofSegments high low)

/-- The IPv4 address in bits 16 to 47 of an address of `2002::/16`. -/
def IpAddr.sixToFour : IpAddr → Option Ipv4Addr
  | .v4 _ => none
  | .v6 ip => if ip.s0 = 0x2002 then some (.ofSegments ip.s1 ip.s2) else none

theorem sixToFour_standsFor {ip : Ipv6Addr} {ip4 : Ipv4Addr}
    (embeds : (IpAddr.v6 ip).sixToFour = some ip4) : ip.StandsFor ip4 := by
  simp only [IpAddr.sixToFour, Option.ite_none_right_eq_some, Option.some.injEq] at embeds
  obtain ⟨first, rfl⟩ := embeds
  cases ip
  subst first
  exact .sixToFour ..

theorem standsFor_public {ip : Ipv6Addr} {ip4 : Ipv4Addr} (stands : ip.StandsFor ip4)
    (public_ : isPublicIp (.v6 ip) = true)
    (embedded : ∀ ip4, (IpAddr.v6 ip).sixToFour = some ip4 → isPublicIpv4 ip4 = true) :
    isPublicIpv4 ip4 = true := by
  cases stands with
  | mapped high low => simpa [isPublicIp, mappedIpv4] using public_
  | sixToFour => exact embedded _ rfl
  | teredoServer => simp [isPublicIp, mappedIpv4, isPublicIpv6] at public_
  | teredoClient => simp [isPublicIp, mappedIpv4, isPublicIpv6] at public_
  | nat64 => simp [isPublicIp, mappedIpv4, isPublicIpv6] at public_
  | localNat64 => simp [isPublicIp, mappedIpv4, isPublicIpv6] at public_

/-- Answers are approved just when there are some and all are public and for HTTPS; what is
    approved is the set of them; and no approved address stands for an IPv4 address that is
    not public just when none has such an address embedded as 6to4. -/
theorem approved_public (answers : List SocketAddr) :
    ((∃ approved, approveAnswers answers = .ok approved) ↔ Approvable answers) ∧
    (∀ approved, approveAnswers answers = .ok approved →
      approved.Nodup ∧ ∀ address, address ∈ approved ↔ address ∈ answers) ∧
    (∀ answers', (∀ address, address ∈ answers ↔ address ∈ answers') →
      approveAnswers answers = approveAnswers answers') ∧
    ((∀ approved, approveAnswers answers = .ok approved → ∀ address ∈ approved,
        ∀ ip ip4, address.ip = .v6 ip → ip.StandsFor ip4 → isPublicIpv4 ip4 = true) ↔
      (Approvable answers → ∀ address ∈ answers, ∀ ip4, address.ip.sixToFour = some ip4 →
        isPublicIpv4 ip4 = true)) := by
  refine ⟨?_, ?_, ?_, ?_, ?_⟩
  · simp [approveAnswers_ok_iff]
  · intro approved ok
    rw [(approveAnswers_ok_iff.mp ok).2]
    exact ⟨unique_nodup, fun address => mem_unique⟩
  · intro answers' same
    unfold approveAnswers
    rw [unique_ext same]
  · intro safe approvable address given ip4 embeds
    have ok := approveAnswers_ok_iff.mpr ⟨approvable, rfl⟩
    cases is6 : address.ip with
    | v4 => simp [is6, IpAddr.sixToFour] at embeds
    | v6 ip =>
      rw [is6] at embeds
      exact safe _ ok address (mem_unique.mpr given) ip ip4 is6 (sixToFour_standsFor embeds)
  · intro embedded approved ok address mem ip ip4 is6 stands
    obtain ⟨approvable, rfl⟩ := approveAnswers_ok_iff.mp ok
    have given := mem_unique.mp mem
    have public_ := (approvable.2 address given).2
    have inner := embedded approvable address given
    rw [is6] at public_ inner
    exact standsFor_public stands public_ inner

namespace Sample

/-- `2002:7f00:1::1`, which a 6to4 router sends to `127.0.0.1`. -/
def loopback6to4 : SocketAddr := .v6 ⟨0x2002, 0x7f00, 1, 0, 0, 0, 0, 1⟩ 443 0 0

theorem loopback_approved : approveAnswers [loopback6to4] = .ok [loopback6to4] ∧
    Ipv6Addr.StandsFor ⟨0x2002, 0x7f00, 1, 0, 0, 0, 0, 1⟩ ⟨127, 0, 0, 1⟩ ∧
    isPublicIpv4 ⟨127, 0, 0, 1⟩ = false :=
  ⟨by decide, .sixToFour 0x7f00 1 0 0 0 0 1, by decide⟩

end Sample
end CryptoGateway.Webhooks
