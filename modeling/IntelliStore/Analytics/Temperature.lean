import Mathlib.Analysis.SpecialFunctions.Pow.Real

/-! `scoreFileTemperature` in exact real arithmetic. A time is the number of milliseconds that
`getTime` gives. -/

noncomputable section

namespace IntelliStore.Analytics

inductive StorageTier where
  | hot
  | cold
  deriving DecidableEq

structure TemperatureInput where
  createdAt : ℤ
  accessCount : ℕ
  lastAccessedAt : Option ℤ
  /-- The injected clock of the tests. -/
  now : Option ℤ

structure ScoringOptions where
  recencyHalfLifeDays : ℝ
  frequencyCap : ℝ
  hotThreshold : ℝ
  coldAgeThresholdDays : ℝ

structure TemperatureResult where
  score : ℤ
  tier : StorageTier
  recommendation : String

def diffDays (later earlier : ℤ) : ℝ := max 0 (((later - earlier : ℤ) : ℝ) / (1000 * 60 * 60 * 24))

/-- `Math.round`: halves go up. -/
def mathRound (x : ℝ) : ℤ := ⌊x + 1 / 2⌋

def buildRecommendation (tier : StorageTier) (ageDays : ℝ) (recencyDays : Option ℝ)
    (accessCount : ℕ) (options : ScoringOptions) : String :=
  if tier = .hot then
    "Frequently accessed (" ++ toString accessCount ++ " time" ++
      (if accessCount = 1 then "" else "s") ++ ") — keep on hot storage."
  else if accessCount = 0 ∧ ageDays < options.coldAgeThresholdDays then
    "Uploaded " ++ toString (mathRound ageDays) ++
      " day(s) ago with no accesses yet — too new to classify confidently."
  else
    match recencyDays with
    | none =>
      "Never accessed since upload " ++ toString (mathRound ageDays) ++
        " day(s) ago — consider archiving."
    | some recencyDays =>
      "Not accessed in " ++ toString (mathRound recencyDays) ++
        " day(s) — consider moving to cold/archive storage."

def recencyScore (recencyDays : Option ℝ) (options : ScoringOptions) : ℝ :=
  match recencyDays with
  | none => 0
  | some recencyDays => 100 * (0.5 : ℝ) ^ (recencyDays / options.recencyHalfLifeDays)

def frequencyScore (accessCount : ℕ) (options : ScoringOptions) : ℝ :=
  min (accessCount : ℝ) options.frequencyCap / options.frequencyCap * 100

/-- `clock` is the current time, for an input that injects none. -/
def scoreFileTemperature (clock : ℤ) (input : TemperatureInput) (options : ScoringOptions) :
    TemperatureResult :=
  let now := input.now.getD clock
  let ageDays := diffDays now input.createdAt
  let recencyDays := input.lastAccessedAt.map (diffDays now)
  let score := mathRound (0.7 * recencyScore recencyDays options +
    0.3 * frequencyScore input.accessCount options)
  let tier := if options.hotThreshold ≤ score then .hot else .cold
  ⟨score, tier, buildRecommendation tier ageDays recencyDays input.accessCount options⟩

theorem diffDays_nonneg (later earlier : ℤ) : 0 ≤ diffDays later earlier := le_max_left _ _

theorem diffDays_mono {later later' earlier earlier' : ℤ} (hlater : later ≤ later')
    (hearlier : earlier' ≤ earlier) : diffDays later earlier ≤ diffDays later' earlier' := by
  have hsub : ((later - earlier : ℤ) : ℝ) ≤ ((later' - earlier' : ℤ) : ℝ) :=
    Int.cast_le.mpr (sub_le_sub hlater hearlier)
  apply max_le_max_left
  exact div_le_div_of_nonneg_right hsub (by norm_num)

theorem mathRound_mono {x y : ℝ} (h : x ≤ y) : mathRound x ≤ mathRound y :=
  Int.floor_mono (add_le_add_left h (1 / 2))

theorem mathRound_natCast (n : ℕ) : mathRound n = n := by
  rw [mathRound, add_comm, Int.floor_add_natCast]
  norm_num

section
variable {options : ScoringOptions}

theorem recencyScore_mem (hlife : 0 < options.recencyHalfLifeDays) {recencyDays : Option ℝ}
    (hdays : ∀ d ∈ recencyDays, 0 ≤ d) :
    0 ≤ recencyScore recencyDays options ∧ recencyScore recencyDays options ≤ 100 := by
  cases recencyDays with
  | none => exact ⟨le_rfl, by norm_num [recencyScore]⟩
  | some d =>
    have hexp : 0 ≤ d / options.recencyHalfLifeDays := div_nonneg (hdays d rfl) hlife.le
    have hpos : 0 ≤ (0.5 : ℝ) ^ (d / options.recencyHalfLifeDays) :=
      Real.rpow_nonneg (by norm_num) _
    have hle : (0.5 : ℝ) ^ (d / options.recencyHalfLifeDays) ≤ 1 :=
      Real.rpow_le_one (by norm_num) (by norm_num) hexp
    constructor
    · exact mul_nonneg (by norm_num) hpos
    · change 100 * (0.5 : ℝ) ^ (d / options.recencyHalfLifeDays) ≤ 100
      linarith

/-- Fewer days since the last access, with `none` as infinitely many, decay less. -/
theorem recencyScore_mono (hlife : 0 < options.recencyHalfLifeDays) {days days' : Option ℝ}
    (h : ∀ d ∈ days, ∃ d' ∈ days', d' ≤ d) :
    recencyScore days options ≤ recencyScore days' options := by
  cases days with
  | none =>
    cases days' with
    | none => exact le_rfl
    | some d' => exact mul_nonneg (by norm_num) (Real.rpow_nonneg (by norm_num) _)
  | some d =>
    obtain ⟨d', rfl, hd⟩ := h d rfl
    have hexp : d' / options.recencyHalfLifeDays ≤ d / options.recencyHalfLifeDays :=
      div_le_div_of_nonneg_right hd hlife.le
    apply mul_le_mul_of_nonneg_left _ (by norm_num)
    exact Real.rpow_le_rpow_of_exponent_ge (by norm_num) (by norm_num) hexp

theorem frequencyScore_mem (hcap : 0 < options.frequencyCap) (accessCount : ℕ) :
    0 ≤ frequencyScore accessCount options ∧ frequencyScore accessCount options ≤ 100 := by
  have hmin : 0 ≤ min (accessCount : ℝ) options.frequencyCap :=
    le_min (Nat.cast_nonneg _) hcap.le
  have hratio : min (accessCount : ℝ) options.frequencyCap / options.frequencyCap ≤ 1 :=
    div_le_one_of_le₀ (min_le_right _ _) hcap.le
  constructor
  · exact mul_nonneg (div_nonneg hmin hcap.le) (by norm_num)
  · rw [frequencyScore]
    linarith

theorem frequencyScore_mono (hcap : 0 < options.frequencyCap) {n n' : ℕ} (h : n ≤ n') :
    frequencyScore n options ≤ frequencyScore n' options := by
  have hmin : min (n : ℝ) options.frequencyCap ≤ min (n' : ℝ) options.frequencyCap :=
    min_le_min_right _ (Nat.cast_le.mpr h)
  exact mul_le_mul_of_nonneg_right (div_le_div_of_nonneg_right hmin hcap.le) (by norm_num)

theorem score_mem (hlife : 0 < options.recencyHalfLifeDays) (hcap : 0 < options.frequencyCap)
    (clock : ℤ) (input : TemperatureInput) :
    0 ≤ (scoreFileTemperature clock input options).score ∧
      (scoreFileTemperature clock input options).score ≤ 100 := by
  have hdays : ∀ d ∈ input.lastAccessedAt.map (diffDays (input.now.getD clock)), 0 ≤ d := by
    intro d hd
    obtain ⟨t, -, rfl⟩ := Option.mem_map.mp hd
    exact diffDays_nonneg _ _
  have hrecency := recencyScore_mem hlife hdays
  have hfrequency := frequencyScore_mem hcap input.accessCount
  have hzero : mathRound (0 : ℕ) = (0 : ℕ) := mathRound_natCast 0
  have hhundred : mathRound (100 : ℕ) = (100 : ℕ) := mathRound_natCast 100
  constructor
  · rw [← Nat.cast_zero, ← hzero]
    apply mathRound_mono
    push_cast
    linarith
  · have hle : (scoreFileTemperature clock input options).score ≤ mathRound (100 : ℕ) := by
      apply mathRound_mono
      push_cast
      linarith
    rwa [hhundred] at hle

/-- The score in all its arguments at once: more accesses, and a last access that is no further
back from the clock. -/
theorem score_mono (hlife : 0 < options.recencyHalfLifeDays) (hcap : 0 < options.frequencyCap)
    {clock clock' : ℤ} {input input' : TemperatureInput}
    (hcount : input.accessCount ≤ input'.accessCount)
    (hlast : ∀ t ∈ input.lastAccessedAt, ∃ t' ∈ input'.lastAccessedAt, t ≤ t')
    (hnow : input'.now.getD clock' ≤ input.now.getD clock) :
    (scoreFileTemperature clock input options).score ≤
      (scoreFileTemperature clock' input' options).score := by
  have hrecency : recencyScore (input.lastAccessedAt.map (diffDays (input.now.getD clock)))
      options ≤
      recencyScore (input'.lastAccessedAt.map (diffDays (input'.now.getD clock'))) options := by
    apply recencyScore_mono hlife
    intro d hd
    obtain ⟨t, ht, rfl⟩ := Option.mem_map.mp hd
    obtain ⟨t', ht', hle⟩ := hlast t ht
    exact ⟨_, Option.mem_map_of_mem _ ht', diffDays_mono hnow hle⟩
  have hfrequency := frequencyScore_mono hcap hcount
  apply mathRound_mono
  linarith

theorem tier_eq_hot (clock : ℤ) (input : TemperatureInput) (options : ScoringOptions) :
    (scoreFileTemperature clock input options).tier = .hot ↔
      options.hotThreshold ≤ (scoreFileTemperature clock input options).score := by
  unfold scoreFileTemperature
  simp only
  split_ifs with h
  · exact iff_of_true rfl h
  · exact iff_of_false (by simp) h

theorem scoreFileTemperature_mono (hlife : 0 < options.recencyHalfLifeDays)
    (hcap : 0 < options.frequencyCap) (clock : ℤ) (input : TemperatureInput) :
    (0 ≤ (scoreFileTemperature clock input options).score ∧
      (scoreFileTemperature clock input options).score ≤ 100) ∧
    (∀ accessCount, input.accessCount ≤ accessCount →
      (scoreFileTemperature clock input options).score ≤
        (scoreFileTemperature clock { input with accessCount := accessCount } options).score) ∧
    (∀ lastAccessedAt, (∀ t ∈ input.lastAccessedAt, t ≤ lastAccessedAt) →
      (scoreFileTemperature clock input options).score ≤
        (scoreFileTemperature clock { input with lastAccessedAt := some lastAccessedAt }
          options).score) ∧
    ∀ clock' now, input.now.getD clock ≤ now.getD clock' →
      (scoreFileTemperature clock' { input with now := now } options).score ≤
        (scoreFileTemperature clock input options).score ∧
      ((scoreFileTemperature clock' { input with now := now } options).tier = .hot →
        (scoreFileTemperature clock input options).tier = .hot) := by
  have hself : ∀ t ∈ input.lastAccessedAt, ∃ t' ∈ input.lastAccessedAt, t ≤ t' :=
    fun t ht => ⟨t, ht, le_rfl⟩
  refine ⟨score_mem hlife hcap clock input, ?_, ?_, ?_⟩
  · intro accessCount hcount
    exact score_mono hlife hcap hcount hself le_rfl
  · intro lastAccessedAt hlast
    exact score_mono hlife hcap le_rfl (fun t ht => ⟨_, rfl, hlast t ht⟩) le_rfl
  · intro clock' now hnow
    have hscore : (scoreFileTemperature clock' { input with now := now } options).score ≤
        (scoreFileTemperature clock input options).score :=
      score_mono hlife hcap le_rfl hself hnow
    refine ⟨hscore, ?_⟩
    rw [tier_eq_hot, tier_eq_hot]
    exact fun hhot => hhot.trans (Int.cast_le.mpr hscore)

end

/-- The defaults of the service. -/
def defaultOptions : ScoringOptions where
  recencyHalfLifeDays := 14
  frequencyCap := 20
  hotThreshold := 50
  coldAgeThresholdDays := 30

theorem scoreFileTemperature_mono_default :
    0 < defaultOptions.recencyHalfLifeDays ∧ 0 < defaultOptions.frequencyCap ∧
      0 ≤ (scoreFileTemperature 0 ⟨0, 3, some 0, none⟩ defaultOptions).score ∧
      (scoreFileTemperature 0 ⟨0, 3, some 0, none⟩ defaultOptions).score ≤ 100 := by
  have hlife : 0 < defaultOptions.recencyHalfLifeDays := by norm_num [defaultOptions]
  have hcap : 0 < defaultOptions.frequencyCap := by norm_num [defaultOptions]
  exact ⟨hlife, hcap, (scoreFileTemperature_mono hlife hcap 0 ⟨0, 3, some 0, none⟩).1⟩

end IntelliStore.Analytics

end
