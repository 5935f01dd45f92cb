import ServerNginx.Lib.Framer

set_option autoImplicit false

/-!
# Packet headers and the reference framer

A packet is an 8-byte packed header (`COMM_PKG_HEADER`: `pkgLen`, `msgCode`, `crc32`, little-endian
as the machine stores them) and a body; `pkgLen` counts both. `pkgFramer` is what the byte stream
of a peer means: `pkgLen` outside `[8, 29000]` drops the 8 header bytes, anything else is a packet.
-/

namespace ServerNginx

/-- `_PKG_MAX_LENGTH`. -/
def pkgMaxLength : ℕ := 30000

/-- `m_iLenPkgHeader = sizeof(COMM_PKG_HEADER)`. -/
def iLenPkgHeader : ℕ := 8

/-- `m_iLenMsgHeader = sizeof(STRUC_MSG_HEADER)`: a pointer and a 64-bit sequence number. -/
def iLenMsgHeader : ℕ := 16

/-- `_DATA_BUFSIZE_`. -/
def dataBufSize : ℕ := 20

/-- A 16-bit little-endian field. -/
def le16 (lo hi : UInt8) : ℕ := lo.toNat + 256 * hi.toNat

/-- `COMM_PKG_HEADER::pkgLen` of the header at the front of `hd`. -/
def pkgLen : List UInt8 → ℕ
  | lo :: hi :: _ => le16 lo hi
  | _ => 0

/-- `COMM_PKG_HEADER::msgCode` of the header at the front of `hd`. -/
def msgCode : List UInt8 → ℕ
  | _ :: _ :: lo :: hi :: _ => le16 lo hi
  | _ => 0

theorem pkgLen_append {s : List UInt8} (h : 2 ≤ s.length) (t : List UInt8) :
    pkgLen (s ++ t) = pkgLen s := by
  match s, h with
  | _ :: _ :: _, _ => rfl

theorem pkgLen_take {s : List UInt8} {n : ℕ} (h : 2 ≤ n) : pkgLen (s.take n) = pkgLen s := by
  match n, h, s with
  | n + 2, _, [] => rfl
  | n + 2, _, [_] => rfl
  | n + 2, _, _ :: _ :: _ => rfl

/-- `e_pkgLen` in the range the receiver accepts. -/
def PkgLenOk (n : ℕ) : Prop := iLenPkgHeader ≤ n ∧ n ≤ pkgMaxLength - 1000

instance (n : ℕ) : Decidable (PkgLenOk n) := inferInstanceAs (Decidable (_ ∧ _))

/-- One step of the reference framer. -/
def nextPkg (s : List UInt8) : Option (Option (List UInt8) × List UInt8) :=
  if s.length < iLenPkgHeader then none
  else if PkgLenOk (pkgLen s) then
    if s.length < pkgLen s then none
    else some (some (s.take (pkgLen s)), s.drop (pkgLen s))
  else some (none, s.drop iLenPkgHeader)

theorem nextPkg_lt {s r : List UInt8} {o : Option (List UInt8)} (h : nextPkg s = some (o, r)) :
    r.length < s.length := by
  unfold nextPkg at h
  split_ifs at h with h₁ h₂ h₃
  · cases h
    have := h₂.1
    simp only [iLenPkgHeader, List.length_drop] at *
    omega
  · cases h
    simp only [iLenPkgHeader, List.length_drop] at *
    omega

theorem nextPkg_append {s r : List UInt8} {o : Option (List UInt8)}
    (h : nextPkg s = some (o, r)) (t : List UInt8) : nextPkg (s ++ t) = some (o, r ++ t) := by
  unfold nextPkg at h ⊢
  split_ifs at h with h₁ h₂ h₃ <;> cases h
  · have hs : 2 ≤ s.length := by simp only [iLenPkgHeader] at h₁; omega
    have hlen : pkgLen s ≤ s.length := by omega
    rw [pkgLen_append hs, if_neg (by simp; omega), if_pos h₂, if_neg (by simp; omega),
      List.take_append_of_le_length hlen, List.drop_append_of_le_length hlen]
  · have hs : 2 ≤ s.length := by simp only [iLenPkgHeader] at h₁; omega
    rw [pkgLen_append hs, if_neg (by simp; omega), if_neg h₂,
      List.drop_append_of_le_length (by omega)]

/-- **The reference framer** of a peer's byte stream. -/
def pkgFramer : Framer UInt8 (List UInt8) where
  next := nextPkg
  next_lt := nextPkg_lt
  next_append := nextPkg_append

theorem nextPkg_short {s : List UInt8} (h : s.length < iLenPkgHeader) : nextPkg s = none := by
  rw [nextPkg, if_pos h]

theorem nextPkg_drop {s : List UInt8} (h : s.length = iLenPkgHeader) (hb : ¬ PkgLenOk (pkgLen s)) :
    nextPkg s = some (none, []) := by
  rw [nextPkg, if_neg (by omega), if_neg hb, List.drop_of_length_le (by omega)]

theorem nextPkg_partial {s : List UInt8} (hok : PkgLenOk (pkgLen s)) (h : s.length < pkgLen s) :
    nextPkg s = none := by
  unfold nextPkg
  rw [if_pos hok, if_pos h, ite_self]

theorem nextPkg_full {s : List UInt8} (hok : PkgLenOk (pkgLen s)) (h : s.length = pkgLen s) :
    nextPkg s = some (some s, []) := by
  have := hok.1
  rw [nextPkg, if_neg (by omega), if_pos hok, if_neg (by omega), ← h, List.take_length,
    List.drop_length]

end ServerNginx
