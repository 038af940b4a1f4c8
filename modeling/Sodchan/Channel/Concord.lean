import Sodchan.Channel.Dialogue

/-! # Concord

A PDU comes too late for its channel only when the host has closed that with the
PDU under way, which it never does when it waits for the EOF of the peer. When no
channel was given up without a word and every CHANNEL_OPEN was answered, the
channels of both sides agree once nothing is under way.
-/

namespace Sodchan

open ByteString

variable {x y z w p q own quota : UInt32} {name : Bytes} {a b l : List Note} {n k : Note}
  {pdu : Pdu} {m : Msg} {s s' : Stage} {G : List Note → List Note → Note → Prop}

/-- The PDUs that end the session unless their channel is there. -/
def Pdu.Hits (x : UInt32) : Pdu → Prop
  | channelData r _ | channelOpenConfirm _ r .. => r = x
  | _ => False

/-- The PDUs under way from `b` to `a`. -/
def underway (b a : List Note) : List Pdu := (sentBy b).drop (takenBy a).length

theorem underway_subset (h : l <+: a) : underway b a ⊆ underway b l := by
  obtain ⟨m, rfl⟩ := h
  have ht : takenBy (l ++ m) = takenBy l ++ takenBy m := List.filterMap_append ..
  rw [underway, ht, List.length_append, ← List.drop_drop]
  exact List.drop_subset _ _

theorem underway_snoc (h : takenBy a <+: sentBy b) :
    underway (b ++ [n]) a = underway b a ++ n.sends.toList := by
  rw [underway, sentBy_snoc, List.drop_append_of_le_length h.length_le]
  rfl

/-- The host closes a channel only after the EOF of the peer. -/
def Patient (a _ : List Note) : Note → Prop
  | .told x _ .close | .dropped x => .heard x .eof ∈ a
  | _ => True

/-- The host closes a channel only when nothing that needs it is under way, and sends on a channel
or accepts one only while the peer still has the one that it belongs to. -/
def Considerate (a b : List Note) : Note → Prop
  | .told x _ .close | .dropped x => ∀ pdu ∈ underway b a, ¬ pdu.Hits x
  | .told _ y (.data _) | .accepted _ y .. => stageOf y b ≠ .gone
  | _ => True

/-- A host gives a channel up without a word only when the peer has ended it. -/
def Spoken (a b : List Note) : Note → Prop
  | .dropped x => .channelClose x ∈ underway b a ∨ .channelOpenFail x ∈ underway b a
  | _ => True

theorem Note.Leads.ne_gone (h : n.Leads s s') : s ≠ .gone := by
  rintro rfl
  cases n with
  | opened | offered => cases h.1
  | accepted | confirmed =>
    obtain ⟨_, h, -⟩ := h
    cases h
  | rejected | failed =>
    obtain ⟨⟨_, h⟩, -⟩ := h
    cases h
  | told z peer m =>
    cases m <;>
    · obtain ⟨⟨_, _, h⟩, -⟩ := h
      cases h
  | heard z m => cases m <;> exact h.1.2 rfl
  | dropped => exact h.1.2 rfl
  | refused | passed | broke => cases h

theorem Sound.silent {m : List Note} (h : Sound (l ++ m)) (hs : stageOf y l = .gone) (hn : n ∈ m) :
    n.about ≠ some y := by
  intro hy
  obtain ⟨m₁, m₂, rfl⟩ := List.append_of_mem hn
  rw [← List.singleton_append, ← List.append_assoc, ← List.append_assoc] at h
  have hl := h.of_append.leads hy
  have ha := h.of_append.of_append.ages y
  rw [hs] at ha
  exact hl.ne_gone ha.gone

namespace Talk

theorem hit (h : Talk G a b) (hk : k ∈ b) (hs : k.sends = some pdu) (hx : pdu.Hits x) :
    ∃ y, k.about = some y ∧ Met a b x y ∧
      ((∃ w p name, .opened x w p name ∈ a) ∨ ∃ w p, .accepted x y w p ∈ a) := by
  have haccepted : ∀ {y w p}, .accepted y x w p ∈ b →
      Met a b x y ∧ ∃ w p name, .opened x w p name ∈ a := by
    intro y w p hk
    obtain ⟨quota, p', name, ho, -⟩ := h.symm.sound.of_accepted hk
    exact ⟨Or.inl ⟨quota, p', name, ho⟩, quota, p', name, h.opened ho⟩
  cases pdu with
  | channelData r payload =>
    obtain rfl : r = x := hx
    obtain ⟨y, rfl⟩ := sends_msg (m := .data payload) hs
    refine ⟨y, rfl, (h.symm.met_of_told hk).symm, ?_⟩
    obtain ⟨l, own, quota, hl, hsl, hst⟩ := h.symm.sound.of_told hk
    obtain ⟨p, p', name, -, hc⟩ | ⟨p, p', name, -, hc⟩ := hsl.of_open hst
    · exact Or.inr ⟨quota, p', h.accepted (hl.subset hc)⟩
    · exact Or.inl (haccepted (hl.subset hc)).2
  | channelOpenConfirm y r w p =>
    obtain rfl : r = x := hx
    obtain rfl := sends_confirm hs
    exact ⟨y, rfl, (haccepted hk).1, Or.inl (haccepted hk).2⟩
  | _ => cases hx

/-- After the channel that it has met is gone, nothing hits a channel. -/
theorem no_hit (h : Talk G a b) (hm : Met a b x y) {b₁ b₂ : List Note} (hb : b = b₁ ++ b₂)
    (hs : stageOf y b₁ = .gone) (hp : pdu ∈ sentBy b₂) : ¬ pdu.Hits x := by
  intro hx
  obtain ⟨k, hk, hks⟩ := mem_sentBy.mp hp
  obtain ⟨z, hz, hmz, -⟩ := h.hit (hb ▸ List.mem_append_right _ hk) hks hx
  obtain rfl := h.met_unique hmz hm
  exact (hb ▸ h.symm.sound).silent hs hk hz

theorem after (h : Talk G a b) (hn : n ∈ a) (ht : n.takes = some pdu) :
    ∃ b₁ k b₂, b = b₁ ++ [k] ++ b₂ ∧ k.sends = some pdu ∧ underway b a ⊆ sentBy b₂ := by
  obtain ⟨a₁, b', ha, ⟨b₃, rfl⟩, -, hm, -⟩ := h.at_note hn
  obtain ⟨b₁, k, ⟨b₂, rfl⟩, hsent, hk⟩ := cut (hm.fifo pdu ht)
  refine ⟨b₁, k, b₂ ++ b₃, by simp only [List.append_assoc], hk, ?_⟩
  have hlen : sentBy (b₁ ++ [k]) = takenBy (a₁ ++ [n]) := by
    rw [sentBy_snoc, takenBy_snoc, hsent, hk, ht]
  refine List.Subset.trans (underway_subset ha) ?_
  rw [underway, List.append_assoc (b₁ ++ [k]), sentBy, List.filterMap_append, ← sentBy, hlen,
    List.drop_left]
  exact List.Subset.refl _

/-- Where a channel is gone that is still needed, its own host has closed it. -/
theorem late (h : Talk G a b) (hp : pdu ∈ underway b a) (hx : pdu.Hits x)
    (hs : stageOf x a = .gone) : (∃ y, .told x y .close ∈ a) ∨ .dropped x ∈ a := by
  obtain ⟨k, hk, hks⟩ := mem_sentBy.mp (List.mem_of_mem_drop hp)
  obtain ⟨y, -, hmet, hborn⟩ := h.hit hk hks hx
  obtain ⟨n, hn, hy, he⟩ := h.sound.of_gone hs
  cases n with
  | told z peer m =>
    obtain rfl := Option.some.inj hy
    cases m with
    | close => exact Or.inl ⟨peer, hn⟩
    | _ => cases he
  | dropped z =>
    obtain rfl := Option.some.inj hy
    exact Or.inr hn
  | heard z m =>
    exfalso
    obtain rfl := Option.some.inj hy
    obtain ⟨b₁, k, b₂, rfl, hk, hrest⟩ := h.after hn rfl
    cases m with
    | close =>
      obtain ⟨y, rfl⟩ := sends_msg (m := .close) hk
      have hmem : Note.told y z .close ∈ b₁ ++ [.told y z .close] ++ b₂ := by simp
      have hgone := h.symm.sound.of_append.of_ends (n := .told y z .close) (x := y)
        (by simp) rfl rfl
      exact h.no_hit (h.symm.met_of_told hmem).symm rfl hgone (hrest hp) hx
    | _ => cases he
  | failed z =>
    exfalso
    obtain rfl := Option.some.inj hy
    obtain ⟨b₁, k, b₂, rfl, hk, hrest⟩ := h.after hn rfl
    obtain ⟨⟨own, p, name, hop⟩, -⟩ := h.sound.of_failed hn
    obtain ⟨y', rfl⟩ | ⟨w, p', name', rfl⟩ := sends_fail hk
    · obtain ⟨⟨quota, p', name', hoff⟩, hgone⟩ :=
        h.symm.sound.of_append.of_rejected (x := y') (y := z) (by simp)
      exact h.no_hit (Or.inl ⟨quota, p', name', List.mem_append_left _ hoff⟩) rfl hgone
        (hrest hp) hx
    · obtain ⟨w', p'', name'', hoff⟩ | ⟨w', p'', name'', hoff⟩ := hmet
      · have := h.open_once (x := z) (n := .refused z w p' name') (by simp) hoff rfl rfl
        cases this
      · have := h.sound.born_unique (x := z) hop hoff rfl rfl
        cases this
  | rejected z peer =>
    exfalso
    obtain rfl := Option.some.inj hy
    obtain ⟨⟨quota, p, name, hoff⟩, -⟩ := h.sound.of_rejected hn
    obtain ⟨w, p', name', hop⟩ | ⟨w, p', hacc⟩ := hborn
    · have := h.sound.born_unique (x := z) hop hoff rfl rfl
      cases this
    · obtain ⟨s, s', t, t', ⟨quota₁, rfl, rfl⟩, ⟨⟨quota₂, rfl⟩, rfl⟩, ha | ha⟩ :=
        h.sound.apart (x := z) hacc hn (by rintro ⟨⟩) rfl rfl <;>
        exact absurd ha.rank (by simp [Stage.rank])
  | _ => cases he

theorem confirm_ripe (h : Talk G a b)
    (hp : takenBy a ++ [.channelOpenConfirm y x w p] <+: sentBy b) :
    (∃ own, stageOf x a = .opening own) ∨ stageOf x a = .gone := by
  obtain ⟨b₁, n, ⟨b₂, rfl⟩, hsent, hn⟩ := cut hp
  obtain rfl := sends_confirm hn
  obtain ⟨hs, -, quota, hst⟩ := h.symm.sound.of_append.snoc_inv
  obtain ⟨p', name, hoff⟩ := hs.of_pending hst
  have hmem : ∀ {k}, k ∈ b₁ → k ∈ b₁ ++ [.accepted y x w p] ++ b₂ := fun hk =>
    List.mem_append_left _ (List.mem_append_left _ hk)
  have hop := h.opened (hmem hoff)
  cases hx : stageOf x a with
  | unborn => exact absurd rfl (h.sound.of_unborn hx _ hop)
  | opening own => exact Or.inl ⟨own, rfl⟩
  | pending z own =>
    obtain ⟨p₁, name₁, hoff'⟩ := h.sound.of_pending hx
    have := h.sound.born_unique (x := x) hop hoff' rfl rfl
    cases this
  | open_ z own q =>
    obtain ⟨p₁, p₂, name₁, -, hc⟩ | ⟨p₁, p₂, name₁, hoff', -⟩ := h.sound.of_open hx
    · -- a CONFIRM that was taken before was sent before
      have hconf : Pdu.channelOpenConfirm z x q p₂ ∈ sentBy b₁ := by
        rw [hsent]
        exact mem_takenBy.mpr ⟨_, hc, rfl⟩
      obtain ⟨k, hk, hks⟩ := mem_sentBy.mp hconf
      obtain rfl := sends_confirm hks
      obtain ⟨quota', p₃, name₃, hoff', hst'⟩ := hs.of_accepted hk
      have := h.open_once (x := x) (hmem hoff) (hmem hoff') rfl rfl
      cases this
      rw [hst] at hst'
      obtain hst' | hst' := hst' <;> cases hst'
    · have := h.sound.born_unique (x := x) hop hoff' rfl rfl
      cases this
  | gone => exact Or.inr rfl

theorem refused (h : Talk G a b) (hn : .broke pdu ∈ a) : ∃ a₁ b₁, a = a₁ ++ [.broke pdu] ∧
    b₁ <+: b ∧ Talk G a₁ b₁ ∧ (Note.broke pdu).May a₁ b₁ ∧ pdu ∈ underway b₁ a₁ := by
  obtain ⟨a₁, b₁, ⟨a₂, rfl⟩, hb, ht, hm, -⟩ := h.at_note hn
  obtain rfl := h.sound.over_last ⟨pdu, List.mem_append_right _ (List.mem_singleton_self _)⟩
  refine ⟨a₁, b₁, List.append_nil _, hb, ht, hm, ?_⟩
  obtain ⟨r, hr⟩ := hm.fifo pdu rfl
  rw [underway, ← hr, List.append_assoc, List.drop_left]
  exact List.mem_cons_self

/-- What ends the session on a channel has come after its host has closed it, or the channel has
been given more credit than fits its counter. -/
theorem broken (h : Talk G a b) (hn : .broke pdu ∈ a) (hx : pdu.Hits x) :
    (stageOf x a = .gone ∧ ((∃ y, .told x y .close ∈ a) ∨ .dropped x ∈ a) ∧ ∃ y, Met a b x y) ∨
      ∃ payload y own quota, pdu = .channelData x payload ∧
      stageOf x a = .open_ y own quota ∧ 2 ^ 32 ≤ own.toNat + credits (toldOn x a) := by
  obtain ⟨a₁, b₁, rfl, hb, ht, hm, hp⟩ := h.refused hn
  have hst : stageOf x (a₁ ++ [.broke pdu]) = stageOf x a₁ := by
    rw [stageOf_snoc, if_neg (by rintro ⟨⟩)]
  have hgone : stageOf x a₁ = .gone → stageOf x (a₁ ++ [.broke pdu]) = .gone ∧
      ((∃ y, .told x y .close ∈ a₁ ++ [.broke pdu]) ∨ .dropped x ∈ a₁ ++ [.broke pdu]) ∧
        ∃ y, Met (a₁ ++ [.broke pdu]) b x y := by
    intro hs
    obtain ⟨k, hk, hks⟩ := mem_sentBy.mp (List.mem_of_mem_drop hp)
    obtain ⟨y, -, hmet, -⟩ := h.hit (hb.subset hk) hks hx
    refine ⟨hst.trans hs, (ht.late hp hx hs).imp ?_ (List.mem_append_left _), y, hmet⟩
    exact Exists.imp fun y hy => List.mem_append_left _ hy
  cases pdu with
  | channelData r payload =>
    obtain rfl : r = x := hx
    obtain ⟨-, y, -, -, ⟨own, quota, hs⟩ | hs⟩ :=
      ht.symm.ripe (m := .data payload) hm.going (hm.fifo _ rfl)
    · rw [← hst] at hs
      refine Or.inr ⟨payload, y, own, quota, rfl, hs, ?_⟩
      by_contra hlt
      exact h.symm.within (m := .data payload) hs (by omega) hn
    · exact Or.inl (hgone hs)
  | channelOpenConfirm y r w p =>
    obtain rfl : r = x := hx
    obtain ⟨own, hs⟩ | hs := ht.confirm_ripe (hm.fifo _ rfl)
    · exact absurd hs (hm.fits.2 y r w p own rfl)
    · exact Or.inl (hgone hs)
  | _ => cases hx

theorem spent (h : Talk G a b) (he : .heard x .eof ∈ a) (hp : pdu ∈ underway b a) :
    ¬ pdu.Hits x := by
  intro hx
  obtain ⟨b₁, k, b₂, rfl, hk, hrest⟩ := h.after he rfl
  obtain ⟨y, rfl⟩ := sends_msg (m := .eof) hk
  obtain ⟨n, hn, hns⟩ := mem_sentBy.mp (hrest hp)
  have hmem : n ∈ b₁ ++ [Note.told y x .eof] ++ b₂ := List.mem_append_right _ hn
  have htold : Note.told y x .eof ∈ b₁ ++ [Note.told y x .eof] ++ b₂ := by simp
  obtain ⟨z, hz, hmet, -⟩ := h.hit hmem hns hx
  obtain rfl := h.met_unique hmet (h.symm.met_of_told htold).symm
  obtain ⟨l₁, l₂, rfl⟩ := List.append_of_mem hn
  have hs : Sound (b₁ ++ [Note.told z x .eof] ++ l₁ ++ [n] ++ l₂) := by simpa using h.symm.sound
  obtain ⟨hl, -, hf⟩ := hs.of_append.snoc_inv
  have hsaid : Note.told z x .eof ∈ b₁ ++ [Note.told z x .eof] ++ l₁ := by simp
  cases n with
  | told z' peer m =>
    obtain rfl := Option.some.inj hz
    obtain ⟨own, quota, -, -, -, hshut⟩ := hf
    cases m with
    | data payload =>
      exact hshut rfl (List.mem_filterMap.mpr ⟨_, hsaid, by simp [Note.tells]⟩)
    | _ =>
      cases hns
      cases hx
  | accepted z' peer w p =>
    obtain rfl := Option.some.inj hz
    obtain ⟨quota, hpend⟩ := hf
    obtain ⟨l', own, quota', ⟨l'', hl'⟩, hsl, hst⟩ := hl.of_told hsaid
    have hages := (hl' ▸ hl : Sound (l' ++ l'')).ages z'
    rw [hl', hst, hpend] at hages
    exact absurd hages.rank (by simp [Stage.rank])
  | _ => cases hns <;> cases hx

/-- A channel that is closed after the EOF of the peer is not missed. -/
theorem kept (h : Talk Patient a b) (hn : .broke pdu ∈ a) (hx : pdu.Hits x) :
    stageOf x a ≠ .gone := by
  intro hs
  obtain ⟨a₁, b₁, rfl, -, ht, -, hp⟩ := h.refused hn
  rw [stageOf_snoc, if_neg (by rintro ⟨⟩)] at hs
  have hheard : .heard x .eof ∈ a₁ := by
    obtain ⟨y, hc⟩ | hc := ht.late hp hx hs <;>
    · obtain ⟨a₂, b₂, ⟨a₃, rfl⟩, -, -, -, hg⟩ := ht.at_note hc
      exact List.mem_append_left _ (List.mem_append_left _ hg)
  exact ht.spent hheard hp hx

end Talk

/-- The note closes the channel for its own host. -/
def Note.Closes (x : UInt32) : Note → Prop
  | .told z _ .close | .dropped z => z = x
  | _ => False

theorem Note.Closes.ends (h : n.Closes x) : n.about = some x ∧ n.ends := by
  cases n with
  | told z peer m =>
    cases m with
    | close =>
      obtain rfl : z = x := h
      exact ⟨rfl, rfl⟩
    | _ => cases h
  | dropped z =>
    obtain rfl : z = x := h
    exact ⟨rfl, rfl⟩
  | _ => cases h

namespace Talk

/-- Between considerate hosts nothing that needs a channel is under way once its host has closed
it. -/
theorem unharmed (h : Talk Considerate a b) (hn : n ∈ a) (hx : n.Closes x)
    (hp : pdu ∈ underway b a) : ¬ pdu.Hits x := by
  induction h with
  | nil => cases hn
  | @left a b k h _ hg ih =>
    have hpre := underway_subset (List.prefix_append a [k]) hp
    obtain hn | hn := List.mem_append.mp hn
    · exact ih hn hpre
    · obtain rfl := List.mem_singleton.mp hn
      cases n with
      | told z peer m =>
        cases m with
        | close =>
          obtain rfl : z = x := hx
          exact hg pdu hpre
        | _ => cases hx
      | dropped z =>
        obtain rfl : z = x := hx
        exact hg pdu hpre
      | _ => cases hx
  | @right a b k h _ hg ih =>
    rw [underway_snoc h.fifo] at hp
    obtain hp | hp := List.mem_append.mp hp
    · exact ih hn hp
    · -- what the peer sends now finds the channel, which is gone
      have hgone := h.sound.of_ends hn hx.ends.1 hx.ends.2
      intro hhit
      have hk := Option.mem_toList.mp hp
      cases pdu with
      | channelData r payload =>
        obtain rfl : r = x := hhit
        obtain ⟨z, rfl⟩ := sends_msg (m := .data payload) hk
        exact hg hgone
      | channelOpenConfirm y r w p =>
        obtain rfl : r = x := hhit
        obtain rfl := sends_confirm hk
        exact hg hgone
      | _ => cases hhit

/-- A channel that is closed with nothing under way is not missed. -/
theorem spared (h : Talk Considerate a b) (hn : .broke pdu ∈ a) (hx : pdu.Hits x) :
    stageOf x a ≠ .gone := by
  intro hs
  obtain ⟨a₁, b₁, rfl, -, ht, -, hp⟩ := h.refused hn
  rw [stageOf_snoc, if_neg (by rintro ⟨⟩)] at hs
  obtain ⟨y, hc⟩ | hc := ht.late hp hx hs
  · exact ht.unharmed (n := .told x y .close) hc rfl hp hx
  · exact ht.unharmed (n := .dropped x) hc rfl hp hx

end Talk

/-- No channel was given up without a word while the peer had its partner, and no CHANNEL_OPEN was
lost. -/
structure Frank (a b : List Note) : Prop where
  told : ∀ {x y}, .dropped x ∈ a → Met a b x y → stageOf y b = .gone
  answered : ∀ x w p name, .passed (.channelOpen x w p name) ∉ a

/-- Nothing is under way or was lost, and the session goes on. -/
structure Calm (a b : List Note) : Prop where
  going : ¬ Over a ∧ ¬ Over b
  frank : Frank a b ∧ Frank b a
  left : takenBy a = sentBy b
  right : takenBy b = sentBy a

theorem Calm.symm (h : Calm a b) : Calm b a := ⟨h.going.symm, h.frank.symm, h.right, h.left⟩

namespace Talk

/-- What is given up without a word is gone at the peer. -/
theorem forsaken (h : Talk Spoken a b) (hn : .dropped x ∈ a) (hm : Met a b x y) :
    stageOf y b = .gone := by
  obtain ⟨a₁, b₁, ha, ⟨b₂, rfl⟩, -, -, hg⟩ := h.at_note hn
  have hsent : ∀ {pdu}, pdu ∈ underway b₁ a₁ → ∃ k ∈ b₁ ++ b₂, k.sends = some pdu := by
    intro pdu hp
    obtain ⟨k, hk, hks⟩ := mem_sentBy.mp (List.mem_of_mem_drop hp)
    exact ⟨k, List.mem_append_left _ hk, hks⟩
  obtain hp | hp := hg
  · obtain ⟨k, hk, hks⟩ := hsent hp
    obtain ⟨z, rfl⟩ := sends_msg (m := .close) hks
    obtain rfl := h.met_unique hm (h.symm.met_of_told hk).symm
    exact h.symm.sound.of_ends hk rfl rfl
  · obtain ⟨k, hk, hks⟩ := hsent hp
    obtain ⟨z, rfl⟩ | ⟨w, p, name, rfl⟩ := sends_fail hks
    · obtain ⟨⟨quota, p, name, hoff⟩, hgone⟩ := h.symm.sound.of_rejected hk
      obtain rfl := h.met_unique hm (Or.inl ⟨quota, p, name, hoff⟩)
      exact hgone
    · obtain ⟨n, hn', hns⟩ := h.sent hk rfl
      obtain rfl := sends_open hns
      obtain ⟨w', p', name', hoff⟩ | ⟨w', p', name', hoff⟩ := hm
      · have := h.open_once (x := x) hk hoff rfl rfl
        cases this
      · have := h.sound.born_unique (x := x) hn' hoff rfl rfl
        cases this

theorem taken (hc : Calm a b) (hn : n ∈ b) (hs : n.sends = some pdu) :
    ∃ k ∈ a, k.takes = some pdu := by
  refine mem_takenBy.mp ?_
  rw [hc.left]
  exact mem_sentBy.mpr ⟨n, hn, hs⟩

theorem confirms (h : Talk G a b) (hc : Calm a b) (hn : .accepted y x w p ∈ b) :
    .confirmed x y w p ∈ a := by
  refine h.symm.confirmed hc.going.1 ?_
  rw [hc.left]
  exact mem_sentBy.mpr ⟨_, hn, rfl⟩

theorem fails (h : Talk G a b) (hc : Calm a b) (hn : n ∈ b)
    (hs : n.sends = some (.channelOpenFail x)) : 2 ≤ (stageOf x a).rank := by
  obtain ⟨k, hk, hk'⟩ := taken hc hn hs
  obtain rfl | rfl | rfl := takes_fail hk'
  · rw [(h.sound.of_failed hk).2]
    simp [Stage.rank]
  · exact h.symm.passed_fail hk
  · exact absurd ⟨_, hk⟩ hc.going.1

theorem closes (h : Talk G a b) (hc : Calm a b) (hn : .told y x .close ∈ b) :
    stageOf x a = .gone := by
  obtain ⟨k, hk, hk'⟩ := taken hc hn rfl
  obtain rfl | rfl | rfl := takes_msg (m := .close) hk'
  · exact h.sound.of_ends hk rfl rfl
  · exact h.symm.passed_gone (m := .close) hk
  · exact absurd ⟨_, hk⟩ hc.going.1

theorem gone_cases (h : Talk G a b) (hc : Calm a b) (hm : Met a b x y)
    (hs : stageOf y b = .gone) :
    (∃ z, .rejected y z ∈ b) ∨ .failed y ∈ b ∨ stageOf x a = .gone := by
  obtain ⟨n, hn, hy, he⟩ := h.symm.sound.of_gone hs
  cases n with
  | rejected z peer =>
    obtain rfl := Option.some.inj hy
    exact Or.inl ⟨peer, hn⟩
  | failed z =>
    obtain rfl := Option.some.inj hy
    exact Or.inr (Or.inl hn)
  | dropped z =>
    obtain rfl := Option.some.inj hy
    exact Or.inr (Or.inr (hc.frank.2.told hn hm.symm))
  | told z peer m =>
    obtain rfl := Option.some.inj hy
    cases m with
    | close =>
      obtain rfl := h.symm.met_unique (h.symm.met_of_told hn) hm.symm
      exact Or.inr (Or.inr (h.closes hc hn))
    | _ => cases he
  | heard z m =>
    obtain rfl := Option.some.inj hy
    cases m with
    | close =>
      obtain ⟨x', hx, hmet⟩ := h.met_of_heard hn
      obtain rfl := h.symm.met_unique hmet.symm hm.symm
      exact Or.inr (Or.inr (h.sound.of_ends hx rfl rfl))
    | _ => cases he
  | _ => cases he

/-- The channel that an open one has met is open too. -/
theorem open_agrees (h : Talk G a b) (hc : Calm a b) (hs : stageOf x a = .open_ y own quota) :
    stageOf y b = .open_ x quota own := by
  have hmet := h.met_of_open hs List.prefix_rfl
  obtain ⟨p, p', name, hop, hcf⟩ | ⟨p, p', name, hoff, hacc⟩ := h.sound.of_open hs
  · have hacc := h.symm.accepted hcf
    obtain ⟨own', p'', name', hoff, hst | hst⟩ := h.symm.sound.of_accepted hacc
    · have := h.sound.born_unique (x := x) hop (h.opened hoff) rfl rfl
      cases this
      exact hst
    · obtain ⟨z, hr⟩ | hf | hg := h.gone_cases hc hmet hst
      · obtain ⟨s, s', t, t', ⟨quota₁, rfl, rfl⟩, ⟨⟨quota₂, rfl⟩, rfl⟩, ha | ha⟩ :=
          h.symm.sound.apart (x := y) hacc hr (by rintro ⟨⟩) rfl rfl
        · exact absurd ha.rank (by simp [Stage.rank])
        · exact absurd ha.rank (by simp [Stage.rank])
      · obtain ⟨⟨w, p₁, name₁, hop'⟩, -⟩ := h.symm.sound.of_failed hf
        have := h.symm.sound.born_unique (x := y) hoff hop' rfl rfl
        cases this
      · rw [hs] at hg
        cases hg
  · have hcf := h.symm.confirms hc.symm hacc
    obtain ⟨own', p'', name', hop', hst | hst⟩ := h.symm.sound.of_confirmed hcf
    · have := h.symm.sound.born_unique (x := y) (h.symm.opened hoff) hop' rfl rfl
      cases this
      exact hst
    · obtain ⟨z, hr⟩ | hf | hg := h.gone_cases hc hmet hst
      · obtain ⟨⟨w, p₁, name₁, hoff'⟩, -⟩ := h.symm.sound.of_rejected hr
        have := h.symm.sound.born_unique (x := y) hop' hoff' rfl rfl
        cases this
      · obtain ⟨s, s', t, t', ⟨quota₁, rfl, rfl⟩, ⟨⟨quota₂, rfl⟩, rfl⟩, ha | ha⟩ :=
          h.symm.sound.apart (x := y) hcf hf (by rintro ⟨⟩) rfl rfl
        · exact absurd ha.rank (by simp [Stage.rank])
        · exact absurd ha.rank (by simp [Stage.rank])
      · rw [hs] at hg
        cases hg

/-- The peer of an opening channel is pending. -/
theorem opening_agrees (h : Talk G a b) (hc : Calm a b) (hs : stageOf x a = .opening own) :
    ∃ y, stageOf y b = .pending x own := by
  have hnone : ∀ {n}, n ∈ b → n.sends ≠ some (.channelOpenFail x) := by
    intro n hn hf
    have := h.fails hc hn hf
    rw [hs] at this
    exact absurd this (by simp [Stage.rank])
  have hunconfirmed : ∀ {y w p}, .accepted y x w p ∉ b := by
    intro y w p hacc
    obtain ⟨_, _, _, -, hst | hst⟩ := h.sound.of_confirmed (h.confirms hc hacc) <;>
      rw [hs] at hst <;> cases hst
  obtain ⟨p, name, hop⟩ := h.sound.of_opening hs
  obtain ⟨k, hk, hk'⟩ := taken hc.symm hop rfl
  obtain ⟨y, rfl⟩ | rfl | rfl | rfl := takes_open hk'
  · refine ⟨y, ?_⟩
    have hmet : Met a b x y := Or.inl ⟨_, _, _, hk⟩
    cases hst : stageOf y b with
    | unborn => exact absurd rfl (h.symm.sound.of_unborn hst _ hk)
    | opening own' =>
      obtain ⟨p', name', hop'⟩ := h.symm.sound.of_opening hst
      have := h.symm.sound.born_unique (x := y) hk hop' rfl rfl
      cases this
    | pending z quota =>
      obtain ⟨p', name', hoff⟩ := h.symm.sound.of_pending hst
      have := h.symm.sound.born_unique (x := y) hk hoff rfl rfl
      cases this
      rfl
    | open_ z own' quota =>
      obtain rfl := h.symm.met_unique (h.symm.met_of_open hst List.prefix_rfl) hmet.symm
      obtain ⟨p₁, p₂, name', hop', -⟩ | ⟨p₁, p₂, name', -, hacc⟩ := h.symm.sound.of_open hst
      · have := h.symm.sound.born_unique (x := y) hk hop' rfl rfl
        cases this
      · exact absurd hacc hunconfirmed
    | gone =>
      obtain ⟨z, hr⟩ | hf | hg := h.gone_cases hc hmet hst
      · obtain ⟨⟨quota, p', name', hoff⟩, -⟩ := h.symm.sound.of_rejected hr
        have := h.symm.sound.born_unique (x := y) hk hoff rfl rfl
        cases this
        exact absurd rfl (hnone hr)
      · obtain ⟨⟨w, p', name', hop'⟩, -⟩ := h.symm.sound.of_failed hf
        have := h.symm.sound.born_unique (x := y) hk hop' rfl rfl
        cases this
      · rw [hs] at hg
        cases hg
  · exact absurd rfl (hnone hk)
  · exact absurd hk (hc.frank.2.answered _ _ _ _)
  · exact absurd ⟨_, hk⟩ hc.going.2

/-- The peer of a pending channel is opening. -/
theorem pending_agrees (h : Talk G a b) (hc : Calm a b) (hs : stageOf y b = .pending x quota) :
    stageOf x a = .opening quota := by
  obtain ⟨p, name, hoff⟩ := h.symm.sound.of_pending hs
  have hop := h.opened hoff
  have hmet : Met a b x y := Or.inl ⟨_, _, _, hoff⟩
  cases hst : stageOf x a with
  | unborn => exact absurd rfl (h.sound.of_unborn hst _ hop)
  | opening own =>
    obtain ⟨p', name', hop'⟩ := h.sound.of_opening hst
    have := h.sound.born_unique (x := x) hop hop' rfl rfl
    cases this
    rfl
  | pending z own =>
    obtain ⟨p', name', hoff'⟩ := h.sound.of_pending hst
    have := h.sound.born_unique (x := x) hop hoff' rfl rfl
    cases this
  | open_ z own' quota' =>
    have hagree := h.open_agrees hc hst
    obtain rfl := h.met_unique (h.met_of_open hst List.prefix_rfl) hmet
    rw [hs] at hagree
    cases hagree
  | gone =>
    obtain ⟨z, hr⟩ | hf | hg := h.symm.gone_cases hc.symm hmet.symm hst
    · obtain ⟨⟨w, p', name', hoff'⟩, -⟩ := h.sound.of_rejected hr
      have := h.sound.born_unique (x := x) hop hoff' rfl rfl
      cases this
    · obtain ⟨z, hr⟩ | ⟨w, p', name', hr⟩ := h.symm.not_accepted hf rfl
      · obtain ⟨⟨quota', p', name', hoff'⟩, hgone⟩ := h.symm.sound.of_rejected hr
        obtain rfl := h.met_unique (Or.inl ⟨_, _, _, hoff'⟩) hmet
        rw [hs] at hgone
        cases hgone
      · have := h.open_once (x := x) hoff hr rfl rfl
        cases this
    · rw [hs] at hg
      cases hg

end Talk

end Sodchan
