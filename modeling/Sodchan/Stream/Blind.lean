import Sodchan.Session.Veiled

/-! # Handlers do not see the input buffer

What a frame does is independent of the bytes that happen to be buffered
behind it.
-/

namespace Sodchan

variable {Rng SS : Type} {E : Env Rng SS} {c : Ctx Rng SS} {b : Bytes}

@[simps]
def Ctx.withIn (c : Ctx Rng SS) (b : Bytes) : Ctx Rng SS := { c with inBuf := b }

def inResult {α : Type} (b : Bytes) (r : Ctx Rng SS × α) : Ctx Rng SS × α := (r.1.withIn b, r.2)

theorem withIn_inBuf (c : Ctx Rng SS) : c.withIn c.inBuf = c := rfl

theorem withIn_eq_veiled (c : Ctx Rng SS) (b : Bytes) :
    c.withIn b = c.veiled { inBuf := fun _ => b } := by
  simp only [Ctx.withIn, Ctx.veiled, id_eq, Bool.cond_self]

theorem log_withIn (o : Occ) : (c.withIn b).log o = (c.log o).withIn b := rfl

theorem setError_withIn (code : Rc) (msg : String) :
    setError (c.withIn b) code msg = (setError c code msg).withIn b := by
  rw [withIn_eq_veiled, withIn_eq_veiled]
  exact setError_veiled code msg

/-- A frame is handled in the same way whatever is buffered behind it. -/
theorem handleFrame_withIn (body : Bytes) :
    handleFrame E (c.withIn b) body = inResult b (handleFrame E c body) := by
  rw [withIn_eq_veiled, handleFrame_veiled, veiledResult, inResult, withIn_eq_veiled]

theorem handleFrame_inBuf (E : Env Rng SS) (c : Ctx Rng SS) (body : Bytes) :
    (handleFrame E c body).1.inBuf = c.inBuf := by
  have h := handleFrame_withIn (E := E) (c := c) (b := c.inBuf) body
  rw [withIn_inBuf] at h
  rw [h]
  rfl

end Sodchan
