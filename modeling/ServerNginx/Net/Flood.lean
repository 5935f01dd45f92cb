import ServerNginx.Lib.Streak
import ServerNginx.Net.Connection

set_option autoImplicit false

/-!
# The verdict of `TestFlood`

Successive calls of `TestFlood` on one connection, each with its clock reading `TimeNow`. Calls are
numbered from 1; reading 0 is the `FloodkickLastTime` of an object `ngx_get_connection` has cleared.

* `gap`, `Short`: the time between two calls, as the code compares it;
* `Burst`: the last `m_floodKickCount` gaps are short;
* `floodTested_eq`: `FloodAttackCount` counts the streak of short gaps, up to its width;
* **`testFlood_verdict`**: the first call that returns true is the first at which there is a burst.
-/

namespace ServerNginx

variable (cfg : Conf) (ts : List UInt64)

/-- Clock reading `i`. -/
def clockReading : ℕ → UInt64
  | 0 => 0
  | i + 1 => ts.getD i 0

/-- The time between the calls `i - 1` and `i`, modulo 2^64. -/
def gap (i : ℕ) : UInt64 := clockReading ts i - clockReading ts (i - 1)

/-- Gap `i` is shorter than `m_floodTimeInterval`. -/
def Short (i : ℕ) : Prop := ((gap ts i).toNat : ℤ) < cfg.mFloodTimeInterval

instance (i : ℕ) : Decidable (Short cfg ts i) := inferInstanceAs (Decidable (_ < _))

/-- The gaps `i - m_floodKickCount + 1` to `i` exist and are short. -/
def Burst (i : ℕ) : Prop :=
  cfg.mFloodKickCount.toInt ≤ i ∧
    ∀ j ≤ i, i - cfg.mFloodKickCount.toInt + 1 ≤ j → Short cfg ts j

instance (i : ℕ) : Decidable (Burst cfg ts i) := inferInstanceAs (Decidable (_ ∧ _))

/-- The connection behind successive calls of `TestFlood`. -/
def floodTested (c : Connection) : Connection := ts.foldl (fun c t => (testFlood cfg t c).1) c

/-- What call number `i` returns. -/
def floodVerdict (c : Connection) (i : ℕ) : Bool :=
  (testFlood cfg (clockReading ts i) (floodTested cfg (ts.take (i - 1)) c)).2

variable {cfg ts} {c : Connection}

theorem lt_interval_iff (h0 : 0 < cfg.mFloodTimeInterval) (h31 : cfg.mFloodTimeInterval < 2 ^ 31)
    (g : UInt64) : g < UInt64.ofInt cfg.mFloodTimeInterval ↔
      (g.toNat : ℤ) < cfg.mFloodTimeInterval := by
  have hI : (UInt64.ofInt cfg.mFloodTimeInterval).toNat = cfg.mFloodTimeInterval.toNat := by
    rw [UInt64.ofInt, UInt64.toNat_ofNat_of_lt' (by simp; omega),
      Int.emod_eq_of_lt h0.le (by omega)]
  rw [UInt64.lt_iff_toNat_lt, hI]
  omega

theorem testFlood_streak (h0 : 0 < cfg.mFloodTimeInterval) (h31 : cfg.mFloodTimeInterval < 2 ^ 31)
    {i : ℕ} (hlast : c.floodkickLastTime = clockReading ts i)
    (hcount : c.floodAttackCount = .ofNat (streak (Short cfg ts) i)) :
    let c' := (testFlood cfg (clockReading ts (i + 1)) c).1
    c'.floodkickLastTime = clockReading ts (i + 1) ∧
      c'.floodAttackCount = .ofNat (streak (Short cfg ts) (i + 1)) := by
  have hcmp : clockReading ts (i + 1) - c.floodkickLastTime < UInt64.ofInt cfg.mFloodTimeInterval ↔
      Short cfg ts (i + 1) := by
    rw [lt_interval_iff h0 h31, hlast]
    rfl
  by_cases hs : Short cfg ts (i + 1)
  · simp [testFlood, hcmp, hs, hcount, streak]
  · simp [testFlood, hcmp, hs, streak]

/-- **`FloodAttackCount` is the streak of short gaps**, on a connection whose flood counters are
clear. -/
theorem floodTested_eq (h0 : 0 < cfg.mFloodTimeInterval) (h31 : cfg.mFloodTimeInterval < 2 ^ 31)
    (hlast : c.floodkickLastTime = 0) (hcount : c.floodAttackCount = 0) {i : ℕ}
    (hi : i ≤ ts.length) :
    (floodTested cfg (ts.take i) c).floodkickLastTime = clockReading ts i ∧
      (floodTested cfg (ts.take i) c).floodAttackCount = .ofNat (streak (Short cfg ts) i) := by
  induction i with
  | zero => exact ⟨hlast, hcount⟩
  | succ i ih =>
    obtain ⟨hl, hc⟩ := ih (by omega)
    have htake : ts.take (i + 1) = ts.take i ++ [clockReading ts (i + 1)] := by
      rw [List.take_add_one, List.getElem?_eq_getElem hi, clockReading, List.getD,
        List.getElem?_eq_getElem hi]
      rfl
    rw [htake, floodTested, List.foldl_append]
    exact testFlood_streak h0 h31 hl hc

/-- **A call returns true** where the counter of short gaps is at the kick count. -/
theorem floodVerdict_eq (h0 : 0 < cfg.mFloodTimeInterval) (h31 : cfg.mFloodTimeInterval < 2 ^ 31)
    (hlast : c.floodkickLastTime = 0) (hcount : c.floodAttackCount = 0) {i : ℕ} (h1 : 1 ≤ i)
    (hi : i ≤ ts.length) :
    floodVerdict cfg ts c i = true ↔
      Int32.ofNat (streak (Short cfg ts) i) = cfg.mFloodKickCount := by
  obtain ⟨j, rfl⟩ : ∃ j, i = j + 1 := ⟨i - 1, by omega⟩
  obtain ⟨hl, hc⟩ := floodTested_eq h0 h31 hlast hcount (show j ≤ ts.length by omega)
  have hstep := (testFlood_streak h0 h31 hl hc).2
  rw [← hstep]
  exact decide_eq_true_iff

theorem one_le_kickCount (hK : 1 ≤ cfg.mFloodKickCount) : 1 ≤ cfg.mFloodKickCount.toInt.toNat := by
  have : 1 ≤ cfg.mFloodKickCount.toInt := Int32.le_iff_toInt_le.mp hK
  omega

theorem ofNat_kickCount (hK : 1 ≤ cfg.mFloodKickCount) :
    Int32.ofNat cfg.mFloodKickCount.toInt.toNat = cfg.mFloodKickCount := by
  have h1 : 1 ≤ cfg.mFloodKickCount.toInt := Int32.le_iff_toInt_le.mp hK
  have h0 : 0 ≤ cfg.mFloodKickCount := Int32.le_iff_toInt_le.mpr (by simp; omega)
  exact Int32.ofNat_toNatClampNeg _ h0

/-- A count that comes out as the kick count, wrapped around or not, is as long at least. -/
theorem kickCount_le {m : ℕ} (h : Int32.ofNat m = cfg.mFloodKickCount) :
    cfg.mFloodKickCount.toInt.toNat ≤ m := by
  rw [← h, Int32.toInt_ofNat', Int32.size, Int.bmod_def]
  omega

theorem burst_iff {i : ℕ} (hK : 1 ≤ cfg.mFloodKickCount) :
    Burst cfg ts i ↔ cfg.mFloodKickCount.toInt.toNat ≤ streak (Short cfg ts) i := by
  have hK : 1 ≤ cfg.mFloodKickCount.toInt := Int32.le_iff_toInt_le.mp hK
  rw [le_streak_iff]
  constructor
  · rintro ⟨hi, hall⟩
    exact ⟨by omega, fun j hj hji => hall j hji (by omega)⟩
  · rintro ⟨hi, hall⟩
    exact ⟨by omega, fun j hji hj => hall j (by omega) hji⟩

theorem not_short_of_lt {i : ℕ} (h31 : cfg.mFloodTimeInterval < 2 ^ 31)
    (h63 : (clockReading ts (i - 1)).toNat < 2 ^ 63)
    (hlt : clockReading ts i < clockReading ts (i - 1)) : ¬ Short cfg ts i := by
  rw [UInt64.lt_iff_toNat_lt] at hlt
  have hgap : (gap ts i).toNat =
      2 ^ 64 - (clockReading ts (i - 1)).toNat + (clockReading ts i).toNat := by
    rw [gap, UInt64.toNat_sub]
    exact Nat.mod_eq_of_lt (by omega)
  rw [Short, hgap]
  omega

/-- **The flood verdict.** On a freshly accepted connection, the first call of `TestFlood` that
returns true is the first call with `m_floodKickCount` short gaps behind it, without such a call
none returns true, and a clock that steps back makes a long gap. -/
theorem testFlood_verdict (cfg : Conf) (hK : 1 ≤ cfg.mFloodKickCount)
    (h0 : 0 < cfg.mFloodTimeInterval) (h31 : cfg.mFloodTimeInterval < 2 ^ 31) (fd : ℤ)
    (seq : UInt64) (obj : ℕ) (ts : List UInt64) :
    let c := Connection.accepted fd seq obj
    (∀ i, IsLeast {i | 1 ≤ i ∧ i ≤ ts.length ∧ floodVerdict cfg ts c i = true} i ↔
      IsLeast {i | 1 ≤ i ∧ i ≤ ts.length ∧ Burst cfg ts i} i) ∧
    ((∀ i, 1 ≤ i → i ≤ ts.length → ¬ Burst cfg ts i) →
      ∀ i, 1 ≤ i → i ≤ ts.length → floodVerdict cfg ts c i = false) ∧
    ∀ i, (clockReading ts (i - 1)).toNat < 2 ^ 63 → clockReading ts i < clockReading ts (i - 1) →
      ¬ Short cfg ts i := by
  intro c
  have hverdict : ∀ i, 1 ≤ i → i ≤ ts.length → (floodVerdict cfg ts c i = true ↔
      Int32.ofNat (streak (Short cfg ts) i) = cfg.mFloodKickCount) :=
    fun i h1 hi => floodVerdict_eq h0 h31 rfl rfl h1 hi
  refine ⟨fun i => ?_, fun hno i h1 hi => ?_, fun i h63 hlt => not_short_of_lt h31 h63 hlt⟩
  · -- the counter cannot wrap around before it has met the kick count
    have hcalls : {i | 1 ≤ i ∧ i ≤ ts.length ∧ floodVerdict cfg ts c i = true} =
        {i | 1 ≤ i ∧ i ≤ ts.length ∧
          Int32.ofNat (streak (Short cfg ts) i) = cfg.mFloodKickCount} := by
      ext i
      exact and_congr_right fun h1 => and_congr_right fun hi => hverdict i h1 hi
    have hbursts : {i | 1 ≤ i ∧ i ≤ ts.length ∧ Burst cfg ts i} =
        {i | 1 ≤ i ∧ i ≤ ts.length ∧
          cfg.mFloodKickCount.toInt.toNat ≤ streak (Short cfg ts) i} := by
      ext i
      exact and_congr_right fun _ => and_congr_right fun _ => burst_iff hK
    rw [hcalls, hbursts]
    exact isLeast_streak_iff (q := fun m => Int32.ofNat m = cfg.mFloodKickCount)
      (one_le_kickCount hK) (ofNat_kickCount hK) fun m hm => kickCount_le hm
  · rw [Bool.eq_false_iff]
    intro htrue
    exact hno i h1 hi ((burst_iff hK).mpr (kickCount_le ((hverdict i h1 hi).mp htrue)))

/-- Three packets, the last two of them 40 ms behind the one before, at a kick count of 2. -/
theorem testFlood_verdict_three :
    IsLeast {i | 1 ≤ i ∧ i ≤ 3 ∧ floodVerdict ⟨8, .etClose, 1, 100, 2⟩ [5000, 5040, 5080]
      (Connection.accepted 3 1 0) i = true} 3 := by
  refine ((testFlood_verdict ⟨8, .etClose, 1, 100, 2⟩ (by decide) (by decide) (by decide) 3 1 0
    [5000, 5040, 5080]).1 3).mpr ⟨⟨by decide, by decide, by decide⟩, fun j hj => ?_⟩
  have hsmall : ∀ j < 3, ¬ Burst ⟨8, .etClose, 1, 100, 2⟩ [5000, 5040, 5080] j := by decide
  exact not_lt.mp fun hlt => hsmall j hlt hj.2.2

end ServerNginx
