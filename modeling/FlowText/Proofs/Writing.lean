import FlowText.Sink
import Mathlib

/-!
# What a writer writes

`Emit.Writes m a t` says that the writer `m`, where there is room for everything, ends with `a` and
has written `t`. Writers in a row write their texts in a row (`Writes.bind`), so what a composed
writer writes is found from its parts.
-/

namespace FlowText.Emit

variable {α β : Type}

/-- **Writes.** Where there is room for everything, the writer does not fail, and adds the text to
what there is. -/
def Writes (m : Emit α) (a : α) (t : String) : Prop :=
  ∀ kept : String, (ExceptT.run m).run ⟨kept, none⟩ = (.ok a, ⟨kept ++ t, none⟩)

theorem writes_pure (a : α) : Writes (pure a) a "" := by
  intro kept
  rw [String.append_empty]
  rfl

theorem writes_emit (piece : String) : Writes (emit piece) () piece := fun _ => rfl

theorem writes_lift {x : Except Error α} {a : α} (h : x = .ok a) : Writes (liftM x) a "" := by
  intro kept
  rw [h, String.append_empty]
  rfl

/-- **In a row.** The texts stand one behind the other. -/
theorem Writes.bind {m : Emit α} {f : α → Emit β} {a : α} {b : β} {t u : String}
    (hm : Writes m a t) (hf : Writes (f a) b u) : Writes (m >>= f) b (t ++ u) := by
  intro kept
  have hrun : (ExceptT.run (m >>= f)).run ⟨kept, none⟩ =
      (ExceptT.run (f a)).run ⟨kept ++ t, none⟩ := by
    rw [ExceptT.run_bind, StateT.run_bind, hm kept]
    rfl
  rw [hrun, hf, String.append_assoc]

theorem Writes.seq {m : Emit Unit} {n : Emit β} {b : β} {t u : String} (hm : Writes m () t)
    (hn : Writes n b u) : Writes (m >>= fun _ => n) b (t ++ u) :=
  hm.bind hn

/-- What may fail before anything is written goes in front of a writer. -/
theorem Writes.lift_bind {x : Except Error α} {f : α → Emit β} {a : α} {b : β} {t : String}
    (h : x = .ok a) (hf : Writes (f a) b t) : Writes (liftM x >>= f) b t := by
  have hw := (writes_lift h).bind hf
  rwa [String.empty_append] at hw

theorem Writes.congr {m : Emit α} {a : α} {t u : String} (h : Writes m a t) (he : t = u) :
    Writes m a u :=
  he ▸ h

theorem text_of_writes {m : Emit Unit} {t : String} (h : Writes m () t) : m.text = .ok t := by
  have hinto : m.into {} = (.ok (), ⟨"" ++ t, none⟩) := h ""
  rw [Emit.text, hinto, String.empty_append]
  rfl

end FlowText.Emit
