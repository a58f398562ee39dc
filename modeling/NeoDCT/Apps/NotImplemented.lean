import NeoDCT.Framework.Dialog

/-!
# The apps that are not implemented yet

`apps/Calculator/main.py` and its copies in CallLog, Clock, Forwarding, Settings and Tones.
-/

namespace NeoDCT

open PyText Interactive

namespace NotImplementedApp

def warningMsg : MessageDialog :=
  { message := "This application has not been implemented yet.".toList }

/-- One iteration of `run`. -/
def runBody (ui : Ui) (_ : Unit) : UI (Unit ⊕ Unit) := do
  let _ ← warningMsg.showModal ui
  let key ← waitForKey
  if key = 46 ∨ key = 28 ∨ key = 50 then pure (.inr ()) else pure (.inl ())

/-- `run`. -/
def run (ui : Ui) : UI Unit := do
  paint [fillBox 0 0 240 210 "black"]
  present
  loop (runBody ui) ()

theorem run_spec (ui : Ui) (w : World) :
    wp (run ui) (fun _ w' => Reads w w') (fun _ w' => Quiet w w') w := by
  refine wp_seq (paint_spec _ w) (fun _ _ h => h) ?_
  intro _ w₁ h₁
  refine wp_seq (present_spec w₁) (fun _ _ h => h) ?_
  intro _ w₂ h₂
  have hq := (h₁.trans h₂).quiet
  refine wp_mono (reads_loop (fun _ w => ?_) () w₂) (fun _ _ h => hq.trans_reads h)
    fun _ _ h => hq.trans h
  refine wp_seq (MessageDialog.showModal_spec ui _ w) (fun _ _ h => h) ?_
  intro _ w₃ h₃
  refine wp_seq (waitForKey_spec w₃) (fun _ _ h => h₃.quiet.trans h.2.2) ?_
  rintro key w₄ ⟨h₄, -⟩
  split <;> exact h₃.trans_quiet h₄.quiet

end NotImplementedApp

end NeoDCT
