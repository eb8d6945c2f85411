import Mathlib.Order.Bounds.Defs
import VaultSync.Sync.Failure

/-! Walks along a chain of causes. Two bounded walks start at the outermost link: one looks for the user who
abandoned authentication, the other takes off wrappers until it meets the specific failure. Each finds what it
looks for exactly when that lies within the bound. -/
namespace VaultSync.Cause

variable {cause source link : Cause} {wrappers limit : Nat}

/-! ### Links -/

/-- The link of a chain that lies a number of links below its outermost one. -/
def link? : Cause → Nat → Option Cause
  | cause, 0 => some cause
  | cause, depth + 1 => cause.source?.bind fun source => source.link? depth

/-- The part of a chain that is looked at has its links in order. -/
theorem getElem?_chain (cause : Cause) (limit depth : Nat) :
    (cause.chain limit)[depth]? = if depth < limit then cause.link? depth else none := by
  induction limit generalizing cause depth with
  | zero => simp [chain]
  | succ limit ih =>
      cases depth with
      | zero => simp [chain, link?]
      | succ depth =>
          rw [chain, List.getElem?_cons_succ, link?]
          cases cause.source? with
          | none => simp
          | some source => simp [ih]

/-- What lies under a link is smaller, so every chain ends. -/
theorem sizeOf_source?_lt (h : cause.source? = some source) : sizeOf source < sizeOf cause := by
  unfold source? at h
  split at h
  · rename_i error
    cases error <;> cases h <;> simp +arith
  all_goals cases h
  all_goals simp +arith

/-! ### Cancellations -/

/-- The link of a user who abandoned authentication. -/
def cancellation : Cause := .transport (.disconnected .authCancelledByUser)

theorem isCancellation_eq_true_iff : cause.isCancellation = true ↔ cause = cancellation := by
  unfold isCancellation
  split
  · simp [cancellation]
  · rename_i hOther
    simpa [cancellation] using hOther

/-- The user abandoned authentication when a link within the bound says so, whatever lies above it. -/
theorem isUserCancelled_iff (cause : Cause) :
    cause.isUserCancelled = true ↔ ∃ depth ≤ maxDepth, cause.link? depth = some cancellation := by
  rw [isUserCancelled, List.any_eq_true]
  simp only [isCancellation_eq_true_iff, exists_eq_right, List.mem_iff_getElem?, getElem?_chain,
    Option.ite_none_right_eq_some, Nat.lt_succ_iff]

/-! ### Wrappers -/

/-- A transport failure of one of the three kinds that only wrap another failure. -/
inductive Over (source : Cause) : Cause → Prop where
  | remote (message : String) : Over source (.transport (.remote message source))
  | internal (message : String) : Over source (.transport (.internal message source))
  | authExhausted : Over source (.transport (.authExhausted source))

theorem Over.source?_eq (h : Over source cause) : cause.source? = some source := by
  cases h <;> rfl

/-- A wrapper is a cause over another one. -/
theorem isWrapper_eq_true_iff : cause.isWrapper = true ↔ ∃ source, Over source cause := by
  constructor
  · intro h
    cases cause with
    | transport error =>
        cases error with
        | remote message source => exact ⟨source, .remote message⟩
        | internal message source => exact ⟨source, .internal message⟩
        | authExhausted source => exact ⟨source, .authExhausted⟩
        | disconnected reason => cases h
        | failed message => cases h
    | _ => cases h
  · rintro ⟨source, hOver⟩
    cases hOver <;> rfl

theorem isWrapper_eq_false_iff : cause.isWrapper = false ↔ ∀ source, ¬ Over source cause := by
  rw [← Bool.not_eq_true, isWrapper_eq_true_iff, not_exists]

/-- A link that wraps has something under it. -/
theorem source?_of_isWrapper (h : cause.isWrapper = true) : ∃ source, cause.source? = some source := by
  obtain ⟨source, hOver⟩ := isWrapper_eq_true_iff.1 h
  exact ⟨source, hOver.source?_eq⟩

/-- A chain begins with a number of wrappers, and the link under them is no wrapper. -/
inductive Wraps : Nat → Cause → Cause → Prop where
  | bare {link : Cause} (hLink : link.isWrapper = false) : Wraps 0 link link
  | wrapper {wrappers : Nat} {cause source link : Cause} (hWrapper : cause.isWrapper = true)
      (hSource : cause.source? = some source) (below : Wraps wrappers source link) :
      Wraps (wrappers + 1) cause link

/-- Under the wrappers of every chain lies a link that is none. -/
theorem exists_wraps (cause : Cause) : ∃ wrappers link, Wraps wrappers cause link := by
  cases hWrapper : cause.isWrapper with
  | false => exact ⟨0, cause, .bare hWrapper⟩
  | true =>
      obtain ⟨source, hSource⟩ := source?_of_isWrapper hWrapper
      obtain ⟨wrappers, link, below⟩ := exists_wraps source
      exact ⟨wrappers + 1, link, .wrapper hWrapper hSource below⟩
termination_by sizeOf cause
decreasing_by exact sizeOf_source?_lt hSource

namespace Wraps

/-- What a chain of wrappers leads to is reached, not wrapped further. -/
theorem isWrapper_eq (h : Wraps wrappers cause link) : link.isWrapper = false := by
  induction h with
  | bare hLink => exact hLink
  | wrapper _ _ _ ih => exact ih

/-- The link behind a number of wrappers is found by following them. -/
theorem link?_eq (h : Wraps wrappers cause link) : cause.link? wrappers = some link := by
  induction h with
  | bare => rfl
  | wrapper _ hSource _ ih => simp [link?, hSource, ih]

/-- The links above are wrappers. -/
theorem isWrapper_of_lt (h : Wraps wrappers cause link) {depth : Nat} {above : Cause}
    (hDepth : depth < wrappers) (hAbove : cause.link? depth = some above) : above.isWrapper = true := by
  induction h generalizing depth with
  | bare => cases hDepth
  | wrapper hWrapper hSource _ ih =>
      cases depth with
      | zero =>
          rw [link?, Option.some.injEq] at hAbove
          exact hAbove ▸ hWrapper
      | succ depth =>
          rw [link?, hSource, Option.bind_some] at hAbove
          exact ih (Nat.lt_of_succ_lt_succ hDepth) hAbove

/-- The number of wrappers is the least depth at which a link is none. -/
theorem isLeast (h : Wraps wrappers cause link) :
    IsLeast {depth | ∃ link, cause.link? depth = some link ∧ ∀ source, ¬ Over source link} wrappers := by
  refine ⟨⟨link, h.link?_eq, isWrapper_eq_false_iff.1 h.isWrapper_eq⟩, ?_⟩
  rintro depth ⟨other, hOther, hBare⟩
  refine Nat.le_of_not_lt fun hLess => ?_
  have hWrapper := h.isWrapper_of_lt hLess hOther
  rw [isWrapper_eq_false_iff.2 hBare] at hWrapper
  cases hWrapper

end Wraps

/-! ### The specific failure -/

/-- A bounded walk finds the link under the wrappers exactly when the bound is above their number. -/
theorem rootWithin_of_wraps (h : Wraps wrappers cause link) (limit : Nat) :
    cause.rootWithin limit = if wrappers < limit then some link else none := by
  induction limit generalizing wrappers cause with
  | zero => rfl
  | succ limit ih =>
      cases h with
      | bare hBare => simp [rootWithin, chain, hBare]
      | @wrapper wrappers _ source _ hWrapper hSource below =>
          have hRoot : cause.rootWithin (limit + 1) = source.rootWithin limit := by
            simp [rootWithin, chain, hWrapper, hSource]
          rw [hRoot, ih below]
          simp only [Nat.succ_lt_succ_iff]

/-- A root is found exactly when fewer wrappers than the limit lead to it. -/
theorem rootWithin_eq_some_iff :
    cause.rootWithin limit = some link ↔ ∃ wrappers < limit, Wraps wrappers cause link := by
  constructor
  · intro hRoot
    obtain ⟨wrappers, found, hWraps⟩ := exists_wraps cause
    rw [rootWithin_of_wraps hWraps, Option.ite_none_right_eq_some, Option.some.injEq] at hRoot
    exact ⟨wrappers, hRoot.1, hRoot.2 ▸ hWraps⟩
  · rintro ⟨wrappers, hLimit, hWraps⟩
    rw [rootWithin_of_wraps hWraps, if_pos hLimit]

/-- The specific failure is the link under the wrappers, unless there are more of them than are taken off. -/
theorem root_of_wraps (h : Wraps wrappers cause link) :
    cause.root = if wrappers ≤ maxDepth then link else cause := by
  rw [root, rootWithin_of_wraps h]
  simp only [Nat.lt_succ_iff]
  split <;> rfl

/-- What is no wrapper is the specific failure itself. -/
theorem root_of_not_isWrapper (h : cause.isWrapper = false) : cause.root = cause :=
  root_of_wraps (.bare h)

/-- The specific failure of a chain is a cancellation exactly when one lies under no more wrappers than
are taken off. -/
theorem root_eq_cancellation_iff :
    cause.root = cancellation ↔ ∃ wrappers ≤ maxDepth, Wraps wrappers cause cancellation := by
  have hFound : cause.rootWithin (maxDepth + 1) = some cancellation ↔ _ := rootWithin_eq_some_iff
  simp only [Nat.lt_succ_iff] at hFound
  rw [← hFound, root]
  cases hRoot : cause.rootWithin (maxDepth + 1) with
  | some link => simp
  | none =>
      -- The first link is looked at in any case, so what is given back unchanged is a wrapper.
      have hCause : cause ≠ cancellation := by
        rintro rfl
        cases hRoot
      simpa using hCause

/-- The links above a cancellation are no cancellations, so a bounded walk finds one only there. -/
theorem any_isCancellation_chain (h : Wraps wrappers cause cancellation) (limit : Nat) :
    (cause.chain limit).any isCancellation = decide (wrappers < limit) := by
  induction limit generalizing wrappers cause with
  | zero => simp [chain]
  | succ limit ih =>
      cases h with
      | bare => simp [chain, isCancellation, cancellation]
      | wrapper hWrapper hSource below =>
          have hOver : cause.isCancellation = false := by
            rw [← Bool.not_eq_true, isCancellation_eq_true_iff]
            rintro rfl
            cases hWrapper
          simp [chain, hSource, hOver, ih below]

/-- Both walks look at the outermost link and thirty-two links below it. A cancellation among them is seen
wherever it lies. The specific failure is the first link that is no wrapper if it lies among them, and the
outermost link itself otherwise; so it is its own specific failure, a wrapper is only given back unchanged, and
below the bound one more wrapper makes no difference. -/
theorem walks_within_depth (cause : Cause) :
    (cause.isUserCancelled = true ↔
      ∃ depth ≤ 32, cause.link? depth = some (.transport (.disconnected .authCancelledByUser))) ∧
    (∃ depth specific,
      IsLeast {d | ∃ link, cause.link? d = some link ∧ ∀ source, ¬ Over source link} depth ∧
      cause.link? depth = some specific ∧
      cause.root = (if depth ≤ 32 then specific else cause) ∧
      (depth < 32 → ∀ outer, Over cause outer → outer.root = cause.root)) ∧
    cause.root.root = cause.root ∧
    (∀ source, Over source cause.root → cause.root = cause) := by
  obtain ⟨depth, specific, hWraps⟩ := exists_wraps cause
  have hRoot : cause.root = if depth ≤ 32 then specific else cause := root_of_wraps hWraps
  refine ⟨isUserCancelled_iff cause,
    ⟨depth, specific, hWraps.isLeast, hWraps.link?_eq, hRoot, fun hDepth outer hOver => ?_⟩, ?_, ?_⟩
  · have hOuter : Wraps (depth + 1) outer specific :=
      .wrapper (isWrapper_eq_true_iff.2 ⟨cause, hOver⟩) hOver.source?_eq hWraps
    have hOuterRoot : outer.root = if depth + 1 ≤ 32 then specific else outer := root_of_wraps hOuter
    rw [hOuterRoot, hRoot, if_pos (Nat.succ_le_of_lt hDepth), if_pos (Nat.le_of_lt hDepth)]
  · by_cases hDepth : depth ≤ 32
    · rw [hRoot, if_pos hDepth, root_of_not_isWrapper hWraps.isWrapper_eq]
    · rw [if_neg hDepth] at hRoot
      rw [hRoot, hRoot]
  · intro source hOver
    by_cases hDepth : depth ≤ 32
    · rw [hRoot, if_pos hDepth] at hOver
      exact absurd hOver (isWrapper_eq_false_iff.1 hWraps.isWrapper_eq source)
    · rw [hRoot, if_neg hDepth]

end VaultSync.Cause
