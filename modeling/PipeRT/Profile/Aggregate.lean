import PipeRT.Profile.Conservation

namespace PipeRT

-- The least and the greatest of some values, if one of them is known beforehand.
section Folds

variable {α : Type} [LinearOrder α] {a : α} {l : List α}

theorem foldl_min_le : l.foldl min a ≤ a ∧ ∀ b ∈ l, l.foldl min a ≤ b := by
  induction l generalizing a
  case nil => simp
  case cons c l ih =>
    obtain ⟨hmin, hmem⟩ := ih (a := min a c)
    refine ⟨hmin.trans (min_le_left a c), fun b hb => ?_⟩
    obtain rfl | hb := List.mem_cons.mp hb
    case inl => exact hmin.trans (min_le_right a b)
    case inr => exact hmem b hb

theorem foldl_min_mem : l.foldl min a = a ∨ l.foldl min a ∈ l := by
  induction l generalizing a
  case nil => exact .inl rfl
  case cons c l ih =>
    obtain heq | hmem := ih (a := min a c)
    case inr => exact .inr <| List.mem_cons_of_mem _ hmem
    case inl =>
      rw [List.foldl_cons, heq]
      obtain h | h := min_choice a c
      case inl => exact .inl h
      case inr => exact .inr <| h.symm ▸ List.mem_cons_self

theorem le_foldl_max : a ≤ l.foldl max a ∧ ∀ b ∈ l, b ≤ l.foldl max a :=
  foldl_min_le (α := αᵒᵈ)

theorem foldl_max_mem : l.foldl max a = a ∨ l.foldl max a ∈ l :=
  foldl_min_mem (α := αᵒᵈ)

end Folds

namespace LogAggregate

variable {aggregate : LogAggregate ℚ} {values : List ℚ} {t : Time}

theorem min_foldl :
    (values.foldl (log rationals) aggregate).min = values.foldl Min.min aggregate.min := by
  induction values generalizing aggregate
  case nil => rfl
  case cons v _ ih =>
    have hmin : (aggregate.log rationals v).min = Min.min aggregate.min v := by
      simp only [log, rationals, decide_eq_true_eq]
      split
      case isTrue h  => exact (min_eq_right h.le).symm
      case isFalse h => exact (min_eq_left (not_lt.mp h)).symm
    rw [List.foldl_cons, ih, hmin, List.foldl_cons]

theorem max_foldl :
    (values.foldl (log rationals) aggregate).max = values.foldl Max.max aggregate.max := by
  induction values generalizing aggregate
  case nil => rfl
  case cons v _ ih =>
    have hmax : (aggregate.log rationals v).max = Max.max aggregate.max v := by
      simp only [log, rationals, decide_eq_true_eq]
      split
      case isTrue h  => exact (max_eq_right h.le).symm
      case isFalse h => exact (max_eq_left (not_lt.mp h)).symm
    rw [List.foldl_cons, ih, hmax, List.foldl_cons]

-- An `int` that overflows has no meaning.
def logs (F : Double ℚ) (aggregate : LogAggregate ℚ) : List ℚ → Option (LogAggregate ℚ)
  | []      => some aggregate
  | v :: vs => if aggregate.logCount < kMaxInt then (aggregate.log F v).logs F vs else none

theorem logs_eq (h : aggregate.logCount ≤ kMaxInt) :
    aggregate.logs rationals values =
      if aggregate.logCount + values.length ≤ kMaxInt then
        some (values.foldl (log rationals) aggregate)
      else
        none := by
  induction values generalizing aggregate
  case nil => simp [logs, h]
  case cons v vs ih =>
    have hcount : (aggregate.log rationals v).logCount = aggregate.logCount + 1 := rfl
    rw [logs, List.length_cons, List.foldl_cons]
    split
    case isTrue hlt =>
      rw [ih (hcount.trans_le hlt), hcount]
      congr 2
      push_cast
      ring
    case isFalse hlt =>
      rw [if_neg]
      push_cast
      omega

end LogAggregate

-- The record says of the values what it should.
structure Record.Summarizes (r : Record ℚ) (values : List ℚ) : Prop where
  count    : Bytes.toNat (intImage r.logCount).reverse = values.length
  least    : r.min ∈ values ∧ ∀ v ∈ values, r.min ≤ v
  greatest : r.max ∈ values ∧ ∀ v ∈ values, v ≤ r.max
  average  : r.avg = values.sum / values.length
  between  : r.min ≤ r.avg ∧ r.avg ≤ r.max

section Summaries

variable {values : List ℚ} {t t' : Time} {name : CString}

namespace LogAggregate

-- What a cleared aggregate holds once the values are logged.
theorem avg_eq (hne : values ≠ []) :
    (values.foldl (log rationals) (clear rationals t)).getAvg rationals =
      values.sum / values.length := by
  have htells : (values.foldl (log rationals) (clear rationals t)).Tells rationals values := ⟨t, rfl⟩
  have hsum : (values.foldl (log rationals) (clear rationals t)).sum = values.sum := by
    simpa using htells.sum rationals_exact
  have hpos := List.length_pos_iff.mpr hne
  rw [getAvg, htells.logCount, hsum, if_pos (by omega)]
  simp [rationals]

theorem min_mem (hne : values ≠ []) (h : ∀ v ∈ values, v ≤ rationals.max) :
    values.foldl Min.min rationals.max ∈ values := by
  obtain heq | hmem := foldl_min_mem (a := rationals.max) (l := values)
  case inr => exact hmem
  case inl =>
    -- The greatest number of the type stands for itself.
    obtain ⟨v, hv⟩ := List.exists_mem_of_ne_nil values hne
    have hle := foldl_min_le (a := rationals.max) (l := values) |>.2 v hv
    rw [heq] at hle ⊢
    exact (h v hv).antisymm hle ▸ hv

theorem max_mem_iff :
    values.foldl Max.max rationals.min ∈ values ↔ ∃ v ∈ values, rationals.min ≤ v := by
  obtain ⟨hle, hall⟩ := le_foldl_max (a := rationals.min) (l := values)
  refine ⟨fun hmem => ⟨_, hmem, hle⟩, fun ⟨v, hv, hmin⟩ => ?_⟩
  obtain heq | hmem := foldl_max_mem (a := rationals.min) (l := values)
  case inr => exact hmem
  case inl =>
    have hvle := hall v hv
    rw [heq] at hvle ⊢
    exact hmin.antisymm hvle ▸ hv

end LogAggregate

theorem average_between {a b : ℚ} (hne : values ≠ []) (ha : ∀ v ∈ values, a ≤ v)
    (hb : ∀ v ∈ values, v ≤ b) :
    a ≤ values.sum / values.length ∧ values.sum / values.length ≤ b := by
  have hpos : (0 : ℚ) < values.length := by exact_mod_cast List.length_pos_iff.mpr hne
  refine ⟨(le_div_iff₀ hpos).mpr ?_, (div_le_iff₀ hpos).mpr ?_⟩
  · have := values.card_nsmul_le_sum a ha
    rwa [nsmul_eq_mul, mul_comm] at this
  · have := values.sum_le_card_nsmul b hb
    rwa [nsmul_eq_mul, mul_comm] at this

-- The maximum is right if and only if one of the values is as great as the least positive number of
-- type `double`, from which it starts. The count is, as long as it is an `int`.
theorem summarizes_iff (hne : values ≠ []) (hrange : ∀ v ∈ values, |v| ≤ rationals.max) :
    (∃ aggregate, (LogAggregate.clear rationals t).logs rationals values = some aggregate ∧
      (aggregate.record rationals name t').Summarizes values) ↔
    (values.length : Int) ≤ kMaxInt ∧ ∃ v ∈ values, rationals.min ≤ v := by
  have hclear : (LogAggregate.clear rationals t).logCount = 0 := rfl
  have hle : ∀ v ∈ values, v ≤ rationals.max := fun v hv => (le_abs_self v).trans (hrange v hv)
  rw [LogAggregate.logs_eq (by rw [hclear]; decide), hclear, zero_add]
  split
  case isFalse hn => simp [hn]
  case isTrue hlen =>
    obtain ⟨aggregate, hagg⟩ : ∃ aggregate : LogAggregate ℚ,
        values.foldl (.log rationals) (.clear rationals t) = aggregate := ⟨_, rfl⟩
    have htells : aggregate.Tells rationals values := ⟨t, hagg.symm⟩
    have hmin : aggregate.min = values.foldl Min.min rationals.max := hagg ▸ LogAggregate.min_foldl
    have hmax : aggregate.max = values.foldl Max.max rationals.min := hagg ▸ LogAggregate.max_foldl
    have havg : aggregate.getAvg rationals = values.sum / values.length :=
      hagg ▸ LogAggregate.avg_eq hne
    simp only [hlen, true_and, Option.some.injEq, exists_eq_left', hagg]
    rw [← LogAggregate.max_mem_iff]
    refine ⟨fun h => hmax ▸ h.greatest.1, fun hmem => ?_⟩
    have hlower := (foldl_min_le (a := rationals.max) (l := values)).2
    have hupper := (le_foldl_max (a := rationals.min) (l := values)).2
    have hbetween := average_between hne hlower hupper
    refine ⟨?_, ?_, ?_, havg, ?_⟩
    · rw [LogAggregate.record_logCount, htells.logCount, toNat_intImage]
      rw [kMaxInt] at hlen
      omega
    · change aggregate.min ∈ values ∧ ∀ v ∈ values, aggregate.min ≤ v
      exact hmin.symm ▸ ⟨LogAggregate.min_mem hne hle, hlower⟩
    · change aggregate.max ∈ values ∧ ∀ v ∈ values, v ≤ aggregate.max
      exact hmax.symm ▸ ⟨hmem, hupper⟩
    · rw [← hmin, ← hmax, ← havg] at hbetween
      exact hbetween

-- Seven milliseconds and none are told as they are.
theorem summarizes_iff_durations :
    ∃ aggregate, (LogAggregate.clear rationals 5).logs rationals [0, 7] = some aggregate ∧
      (aggregate.record rationals (nameAt 1) 9).Summarizes [0, 7] := by
  refine (summarizes_iff (by simp) fun v hv => ?_).mpr ⟨by decide, 7, by simp, ?_⟩
  · obtain rfl | rfl : v = 0 ∨ v = 7 := by simpa using hv
    all_goals decide +kernel
  · decide +kernel

-- An event of no duration has a maximum that it did not have.
theorem zero_not_summarized :
    ¬∃ aggregate, (LogAggregate.clear rationals 5).logs rationals [0] = some aggregate ∧
      (aggregate.record rationals (nameAt 1) 9).Summarizes [0] := by
  rintro ⟨aggregate, hlogs, h⟩
  obtain rfl := Option.some.inj hlogs
  have hmax := h.greatest.1
  rw [List.mem_singleton] at hmax
  exact absurd hmax (by decide +kernel)

end Summaries
end PipeRT
