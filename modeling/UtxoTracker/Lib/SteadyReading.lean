import Mathlib.Data.List.Infix
/-!
# Waiting for a reading to hold still

A poller acts on a value only once it has been read again, unchanged, `stable` times in a row. It
gives up when its budget of re-reads is spent or a reading is unusable.
-/

namespace SteadyReading

variable {α β : Type*} [DecidableEq α] [DecidableEq β]

/-- `budget` re-reads are left, and `previous` was read `count` more times in a row. -/
def settle (stable : Nat) : Nat → α → Nat → List (Option α) → Option α
  | 0, _, _, _ => none
  | budget + 1, previous, count, readings =>
      match readings with
      | some value :: rest =>
          if value = previous then
            if count + 1 = stable then some value
            else settle stable budget previous (count + 1) rest
          else settle stable budget value 0 rest
      | _ => none

/-- `value` was read, and read again `stable` times in a row. -/
def Held (stable : Nat) (value : α) (readings : List (Option α)) : Prop :=
  List.replicate (stable + 1) (some value) <:+: readings

omit [DecidableEq α] in
theorem Held.mono {stable : Nat} {value : α} {readings longer : List (Option α)}
    (hheld : Held stable value readings) (hwithin : readings <:+: longer) :
    Held stable value longer :=
  List.IsInfix.trans hheld hwithin

/-- What a poller accepts held still within its budget. -/
theorem settle_held {stable budget count : Nat} {previous value : α} {readings : List (Option α)}
    (hsettle : settle stable budget previous count readings = some value) :
    Held stable value (List.replicate (count + 1) (some previous) ++ readings.take budget) := by
  induction budget generalizing previous count readings with
  | zero => cases hsettle
  | succ budget ih =>
      unfold settle at hsettle
      split at hsettle
      · next reading rest =>
          rw [List.take_succ_cons]
          have hread : List.replicate (count + 1) (some previous) ++ some previous :: rest.take budget
              = List.replicate (count + 1 + 1) (some previous) ++ rest.take budget := by
            rw [List.replicate_succ' (n := count + 1), List.append_assoc, List.singleton_append]
          split_ifs at hsettle with heq hstable
          · obtain rfl := Option.some.inj hsettle
            subst heq
            rw [hread, hstable]
            exact (List.prefix_append _ _).isInfix
          · rw [heq, hread]
            exact ih hsettle
          · refine (ih hsettle).mono ?_
            exact (List.suffix_append _ _).isInfix
      · cases hsettle

/-- Reading through an injection changes nothing. -/
theorem settle_map {f : α → β} (hf : Function.Injective f) (stable budget count : Nat)
    (previous : α) (readings : List (Option α)) :
    settle stable budget (f previous) count (readings.map (Option.map f)) =
      (settle stable budget previous count readings).map f := by
  induction budget generalizing previous count readings with
  | zero => rfl
  | succ budget ih =>
      rcases readings with _ | ⟨_ | value, rest⟩
      · rfl
      · rfl
      · simp only [settle, List.map_cons, Option.map_some, hf.eq_iff]
        split_ifs with heq hstable
        · rfl
        · exact ih (count + 1) previous rest
        · exact ih 0 value rest

end SteadyReading
