import Birdcall.Engine.Options

/-!
# Options come apart

However options are nested, and whichever of them are not there, what they are put together to is
the settings in them, in order (`Options.parts_combined`).  So options are applied by applying these
settings one by one (`Options.apply_eq`).
-/

namespace Birdcall.Options

theorem parts_combine {options : List Options} {settings : List Setting}
    (h : options.flatMap parts = settings.map one) :
    (combine options).parts = settings.map one := by
  unfold combine
  rw [h]
  match settings with
  | [] => rfl
  | [s] => rfl
  | s :: s' :: rest => rfl

mutual

theorem parts_combined : ∀ o : Options, o.combined.parts = o.settings.map one
  | absent => rfl
  | one _ => rfl
  | all options => parts_combine (flatMap_parts_combinedAll options)

theorem flatMap_parts_combinedAll :
    ∀ options : List Options, (combinedAll options).flatMap parts = (settingsOfAll options).map one
  | [] => rfl
  | o :: rest => by
    rw [combinedAll, List.flatMap_cons, parts_combined o, flatMap_parts_combinedAll rest,
      settingsOfAll, List.map_append]

end

theorem carryAll_map_one (settings : List Setting) :
    carryAll (settings.map one) = settings.forM Setting.apply := by
  induction settings with
  | nil => rfl
  | cons s rest ih =>
    rw [List.map_cons, carryAll, ih]
    rfl

/-- Options are applied by applying the settings in them, in order. -/
theorem apply_eq (o : Options) : o.apply = o.settings.forM Setting.apply := by
  have hparts : [o.combined].flatMap parts = o.settings.map one := by
    rw [List.flatMap_singleton, parts_combined]
  rw [apply, combine, hparts, ← carryAll_map_one]
  match o.settings with
  | [] => rfl
  | [s] => exact (bind_pure_unit : (do s.apply; pure ()) = s.apply).symm
  | s :: s' :: rest => rfl

end Birdcall.Options
