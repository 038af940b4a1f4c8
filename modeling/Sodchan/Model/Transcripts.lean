import Sodchan.Model.Wire

/-! # Signed transcripts

Servers sign the HELLO transcript and clients the AUTH transcript. Either
determines everything it was built from, and no transcript of one kind begins
with one of the other, so no signature is over the message of another.
-/

namespace Sodchan.Wire

open ByteString

variable {t t' : BytesN tHelloLen} {pk pk' : Key} {user user' device device' b b' : Bytes}
  {cap cap' : ℕ}

def tAuth (t : BytesN tHelloLen) (pk : Key) (user device : Bytes) : Bytes :=
  domClientAuth ++ t.val ++ pk.val ++ [UInt8.ofNat user.length] ++ user ++
    [UInt8.ofNat device.length] ++ device

/-- What the builder accepts, and what it lays out. -/
theorem buildTAuth_eq_ok_iff : buildTAuth t pk user device cap = .ok b ↔
    user.length ≤ userMax ∧ device.length ≤ deviceIdMax ∧
      179 + user.length + device.length ≤ cap ∧ b = tAuth t pk user device := by
  have ht : tHelloLen = 123 := rfl
  unfold buildTAuth
  constructor
  · intro h
    split_ifs at h with hmax hcap
    exact ⟨by omega, by omega, by omega, (Except.ok.inj h).symm⟩
  · rintro ⟨hu, hd, hcap, rfl⟩
    rw [if_neg (by omega), if_neg (by omega)]
    rfl

theorem length_tAuth (t : BytesN tHelloLen) (pk : Key) (user device : Bytes) :
    (tAuth t pk user device).length = 179 + user.length + device.length := by
  simp only [tAuth, List.length_append, BytesN.length_val, length_domClientAuth,
    List.length_singleton, tHelloLen]
  omega

/-- A text behind its length byte can be told from what follows. -/
theorem text_injective (hu : user.length ≤ 128) (hu' : user'.length ≤ 128)
    (h : UInt8.ofNat user.length :: (user ++ b) = UInt8.ofNat user'.length :: (user' ++ b')) :
    user = user' ∧ b = b' := by
  obtain ⟨hl, h⟩ := List.cons.inj h
  have hl := congrArg UInt8.toNat hl
  rw [UInt8.toNat_ofNat', UInt8.toNat_ofNat', Nat.mod_eq_of_lt (by omega),
    Nat.mod_eq_of_lt (by omega)] at hl
  exact List.append_inj h hl

theorem tAuth_injective (hu : user.length ≤ 128) (hu' : user'.length ≤ 128)
    (hd : device.length ≤ 128) (hd' : device'.length ≤ 128)
    (h : tAuth t pk user device = tAuth t' pk' user' device') :
    t = t' ∧ pk = pk' ∧ user = user' ∧ device = device' := by
  simp only [tAuth, List.append_assoc] at h
  obtain ⟨-, h⟩ := List.append_inj h rfl
  obtain ⟨ht, h⟩ := List.append_inj h (by rw [t.2, t'.2])
  obtain ⟨hpk, h⟩ := List.append_inj h (by rw [pk.2, pk'.2])
  obtain ⟨hu, h⟩ := text_injective hu hu' h
  have h : UInt8.ofNat device.length :: (device ++ []) =
      UInt8.ofNat device'.length :: (device' ++ []) := by
    rwa [List.append_nil, List.append_nil]
  obtain ⟨hd, -⟩ := text_injective hd hd' h
  exact ⟨Subtype.ext ht, Subtype.ext hpk, hu, hd⟩

theorem buildTHello_injective {v s v' s' : UInt16} {ce se si ce' se' si' : Key}
    (h : buildTHello v s ce se si = buildTHello v' s' ce' se' si') :
    v = v' ∧ s = s' ∧ ce = ce' ∧ se = se' ∧ si = si' := by
  have h := congrArg Subtype.val h
  obtain ⟨h, hsi⟩ := List.append_inj' h (by rw [si.2, si'.2])
  obtain ⟨h, hse⟩ := List.append_inj' h (by rw [se.2, se'.2])
  obtain ⟨h, hce⟩ := List.append_inj' h (by rw [ce.2, ce'.2])
  obtain ⟨h, hs⟩ := List.append_inj' h rfl
  obtain ⟨-, hv⟩ := List.append_inj' h rfl
  exact ⟨be16_injective hv, be16_injective hs, Subtype.ext hce, Subtype.ext hse, Subtype.ext hsi⟩

/-- The domains differ at the twelfth byte. -/
theorem domain_tHello (v s : UInt16) (ce se si : Key) :
    (buildTHello v s ce se si).val[11]? = some 115 := rfl

theorem domain_tAuth (t : BytesN tHelloLen) (pk : Key) (user device : Bytes) :
    (tAuth t pk user device)[11]? = some 99 := rfl

theorem byte_at_front {x : UInt8} {n : ℕ} (h : b <+: b') (hb : b[n]? = some x) :
    b'[n]? = some x := by
  obtain ⟨u, rfl⟩ := h
  rw [List.getElem?_append_left (List.getElem?_eq_some_iff.mp hb).1, hb]

/-- Signed transcripts are unambiguous. -/
theorem transcripts_unambiguous :
    (∀ (v s v' s' : UInt16) (ce se si ce' se' si' : Key),
      buildTHello v s ce se si = buildTHello v' s' ce' se' si' →
        v = v' ∧ s = s' ∧ ce = ce' ∧ se = se' ∧ si = si') ∧
    (∀ (t t' : BytesN tHelloLen) (pk pk' : Key) (user user' device device' : Bytes) (cap cap' : ℕ)
      (b : Bytes), buildTAuth t pk user device cap = .ok b →
        buildTAuth t' pk' user' device' cap' = .ok b →
          t = t' ∧ pk = pk' ∧ user = user' ∧ device = device') ∧
    (∀ (t : BytesN tHelloLen) (pk : Key) (user device : Bytes) (cap : ℕ),
      ((∃ b, buildTAuth t pk user device cap = .ok b) ↔
        user.length ≤ 128 ∧ device.length ≤ 128 ∧ 179 + user.length + device.length ≤ cap) ∧
      ∀ b, buildTAuth t pk user device cap = .ok b →
        b.length = 179 + user.length + device.length ∧ b.length ≤ 512) ∧
    ∀ (t : BytesN tHelloLen) (pk : Key) (user device : Bytes) (cap : ℕ) (b : Bytes) (v s : UInt16)
      (ce se si : Key), buildTAuth t pk user device cap = .ok b →
        ¬ b <+: (buildTHello v s ce se si).val ∧ ¬ (buildTHello v s ce se si).val <+: b := by
  refine ⟨?_, ?_, ?_, ?_⟩
  · intro v s v' s' ce se si ce' se' si' h
    exact buildTHello_injective h
  · intro t t' pk pk' user user' device device' cap cap' b h h'
    obtain ⟨hu, hd, -, rfl⟩ := buildTAuth_eq_ok_iff.mp h
    obtain ⟨hu', hd', -, he⟩ := buildTAuth_eq_ok_iff.mp h'
    exact tAuth_injective hu hu' hd hd' he
  · intro t pk user device cap
    constructor
    · constructor
      · rintro ⟨b, h⟩
        obtain ⟨hu, hd, hcap, -⟩ := buildTAuth_eq_ok_iff.mp h
        exact ⟨hu, hd, hcap⟩
      · rintro ⟨hu, hd, hcap⟩
        exact ⟨_, buildTAuth_eq_ok_iff.mpr ⟨hu, hd, hcap, rfl⟩⟩
    · intro b h
      obtain ⟨hu, hd, -, rfl⟩ := buildTAuth_eq_ok_iff.mp h
      rw [length_tAuth]
      simp only [userMax, deviceIdMax] at hu hd
      omega
  · intro t pk user device cap b v s ce se si h
    obtain ⟨-, -, -, rfl⟩ := buildTAuth_eq_ok_iff.mp h
    have hhello := domain_tHello v s ce se si
    have hauth := domain_tAuth t pk user device
    constructor
    · intro hp
      cases hhello.symm.trans (byte_at_front hp hauth)
    · intro hp
      cases hauth.symm.trans (byte_at_front hp hhello)

end Sodchan.Wire
