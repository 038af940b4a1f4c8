import Sodchan.Model.Traffic

/-! # Projections of the history

The bytes queued for output, the PDUs sent and received, the frames and the
events of a session, each in the order in which they occurred.
-/

namespace Sodchan

variable {Rng SS : Type} {E : Env Rng SS} {p : Powers} {c c' : Ctx Rng SS}

def Occ.appended? : Occ → Option Bytes
  | .appended p => some p
  | _ => none

def Occ.sent? : Occ → Option Bytes
  | .sent pdu => some pdu
  | _ => none

def Occ.frame? : Occ → Option Bytes
  | .frame raw => some raw
  | _ => none

def Occ.pulled? : Occ → Option (Bytes × Bytes × UInt8)
  | .pulled ct plain tag => some (ct, plain, tag)
  | _ => none

def Occ.queued? : Occ → Option Event
  | .queued ev => some ev
  | _ => none

/-- An event that was emitted, whether it fitted the queue or not. -/
def Occ.emitted? : Occ → Option Event
  | .queued ev | .dropped ev => some ev
  | _ => none

def Occ.did? : Occ → Option Call
  | .did k => some k
  | _ => none

namespace Ctx

def appended (c : Ctx Rng SS) : List Bytes := c.hist.filterMap Occ.appended?

def sent (c : Ctx Rng SS) : List Bytes := c.hist.filterMap Occ.sent?

def frames (c : Ctx Rng SS) : List Bytes := c.hist.filterMap Occ.frame?

def records (c : Ctx Rng SS) : List (Bytes × Bytes × UInt8) := c.hist.filterMap Occ.pulled?

def received (c : Ctx Rng SS) : List Bytes := c.records.map fun r => r.2.1

/-- The events stored in the queue so far. -/
def queued (c : Ctx Rng SS) : List Event := c.hist.filterMap Occ.queued?

/-- The events emitted so far, stored or lost. -/
def emitted (c : Ctx Rng SS) : List Event := c.hist.filterMap Occ.emitted?

def calls (c : Ctx Rng SS) : List Call := c.hist.filterMap Occ.did?

end Ctx

theorem emitOcc_emitted (c : Ctx Rng SS) (ev : Event) : (emitOcc c ev).emitted? = some ev := by
  rcases emitOcc_cases c ev with h | h <;> rw [h] <;> rfl

theorem emit_emitted (c : Ctx Rng SS) (ev : Event) :
    (emit c ev).emitted = c.emitted ++ [ev] := by
  rw [emit_eq]
  unfold Ctx.emitted
  rw [List.filterMap_append]
  simp [emitOcc_emitted]

theorem emit_filterMap {α : Type} {f : Occ → Option α} (hq : ∀ ev, f (.queued ev) = none)
    (hd : ∀ ev, f (.dropped ev) = none) (c : Ctx Rng SS) (ev : Event) :
    (emit c ev).hist.filterMap f = c.hist.filterMap f := by
  rw [emit_eq, List.filterMap_append]
  rcases emitOcc_cases c ev with h | h <;> simp [h, hq, hd]

theorem setError_filterMap {α : Type} {f : Occ → Option α} (hq : ∀ ev, f (.queued ev) = none)
    (hd : ∀ ev, f (.dropped ev) = none) (c : Ctx Rng SS) (code : Rc) (msg : String) :
    (setError c code msg).hist.filterMap f = c.hist.filterMap f := by
  unfold setError
  rw [emit_filterMap hq hd]

theorem Moves.output_rest (hr : c.ssPushReady = false) (h : Moves E p c c') :
    c'.appended = c.appended ∧ c'.sent = c.sent := by
  induction h with
  | refl => exact ⟨rfl, rfl⟩
  | @tail a b hca hm ih =>
    have hskip : ∀ o : Occ, b.hist = a.hist ++ [o] → o.appended? = none → o.sent? = none →
        b.appended = c.appended ∧ b.sent = c.sent := by
      intro o hb ha hs
      unfold Ctx.appended Ctx.sent at ih ⊢
      rw [hb, List.filterMap_append, List.filterMap_append, ih.1, ih.2]
      simp [ha, hs]
    cases hm with
    | emit ev =>
      exact ⟨(emit_filterMap (fun _ => rfl) (fun _ => rfl) a ev).trans ih.1,
        (emit_filterMap (fun _ => rfl) (fun _ => rfl) a ev).trans ih.2⟩
    | push _ _ _ hroom =>
      have hp : a.ssPushReady = c.ssPushReady := by
        rw [Moves.overlay hca]
        rfl
      exact absurd ((hp.trans hr).symm.trans hroom.ready) (by rintro ⟨⟩)
    | pop => exact hskip _ rfl rfl rfl
    | log o hlog =>
      cases o <;> first
        | exact hskip _ rfl rfl rfl
        | cases hlog
    | _ => exact ih

end Sodchan
