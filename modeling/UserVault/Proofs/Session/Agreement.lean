import UserVault.Proofs.Session.Speech

/-!
# Sessions that agree

Two sessions with the same input, cut in whatever ways, say the same if their backends make the
same of every request.  It is enough that the states stay related while the sessions go on, and
that they are left related in a weaker way when a request ends them.
-/

namespace UserVault.Session

open Link Protocol

variable {σ : Type}

/-- The same came of a request on both sides: `Going` relates the states if the sessions go on,
`Left` if they end. -/
inductive Performed.Agree (Going Left : σ → σ → Prop) : Performed σ → Performed σ → Prop
  | replied {o : Outcome} {input input' : Source} {state state' : σ} (hinput : input.Same input')
    (hstate : Going state state') : Agree Going Left ⟨.ok o, input, state⟩ ⟨.ok o, input', state'⟩
  | closed {close close' : Close} {input input' : Source} {state state' : σ}
    (hremnant : close'.remnant = close.remnant)
    (hending : close'.ending.isOk = close.ending.isOk) (hstate : Left state state') :
    Agree Going Left ⟨.error close, input, state⟩ ⟨.error close', input', state'⟩

variable {b b' : Backend σ} {Going Left : σ → σ → Prop}

/-- Backends that make the same of every request have their sessions say the same. -/
theorem Speech.agree (hleft : ∀ s s', Going s s' → Left s s')
    (hperform : ∀ user request state state' input input', Going state state' →
      input.Same input' →
      (b.perform state user request input).Agree Going Left
        (b'.perform state' user request input'))
    {state state' last last' : σ} {input input' rest rest' : Source} {replies replies' : List Reply}
    {close close' : Close} (h : Speech b state input replies close last rest)
    (h' : Speech b' state' input' replies' close' last' rest') (hstate : Going state state')
    (hinput : input.Same input') :
    replies' = replies ∧ close'.remnant = close.remnant ∧
      close'.ending.isOk = close.ending.isOk ∧ Left last last' := by
  induction h generalizing state' input' replies' with
  | quiet hread =>
    obtain ⟨_, _, _, hread₁, hread₂, -⟩ := blind_read _ _ hinput
    rw [hread] at hread₁
    cases hread₁
    cases h' with
    | quiet => exact ⟨rfl, rfl, rfl, hleft _ _ hstate⟩
    | garbled hread' | ended hread' | replied hread' =>
      rw [hread₂] at hread'
      cases hread'
  | garbled hread =>
    obtain ⟨_, _, _, hread₁, hread₂, -⟩ := blind_read _ _ hinput
    rw [hread] at hread₁
    cases hread₁
    cases h' with
    | garbled => exact ⟨rfl, rfl, rfl, hleft _ _ hstate⟩
    | quiet hread' | ended hread' | replied hread' =>
      rw [hread₂] at hread'
      cases hread'
  | @ended _ _ _ _ _ header request _ hread hdone =>
    obtain ⟨_, _, _, hread₁, hread₂, hsame⟩ := blind_read _ _ hinput
    rw [hread] at hread₁
    cases hread₁
    cases h' with
    | quiet hread' | garbled hread' =>
      rw [hread₂] at hread'
      cases hread'
    | ended hread' hdone' =>
      rw [hread₂] at hread'
      cases hread'
      have hagree := hperform header.user request _ _ _ _ hstate hsame
      rw [hdone, hdone'] at hagree
      cases hagree with
      | closed hremnant hending hlast => exact ⟨rfl, hremnant, hending, hlast⟩
    | replied hread' hdone' =>
      rw [hread₂] at hread'
      cases hread'
      have hagree := hperform header.user request _ _ _ _ hstate hsame
      rw [hdone, hdone'] at hagree
      cases hagree
  | @replied _ _ _ _ _ _ _ header request _ _ _ hread hdone _ ih =>
    obtain ⟨_, _, _, hread₁, hread₂, hsame⟩ := blind_read _ _ hinput
    rw [hread] at hread₁
    cases hread₁
    cases h' with
    | quiet hread' | garbled hread' =>
      rw [hread₂] at hread'
      cases hread'
    | ended hread' hdone' =>
      rw [hread₂] at hread'
      cases hread'
      have hagree := hperform header.user request _ _ _ _ hstate hsame
      rw [hdone, hdone'] at hagree
      cases hagree
    | replied hread' hdone' hlater' =>
      rw [hread₂] at hread'
      cases hread'
      have hagree := hperform header.user request _ _ _ _ hstate hsame
      rw [hdone, hdone'] at hagree
      cases hagree with
      | replied hsame' hstate' =>
        obtain ⟨hreplies, hrest⟩ := ih hlater' hstate' hsame'
        exact ⟨by rw [hreplies], hrest⟩

/-- Sessions that serve the same input, and whose writes do not fail, write the same replies and
both end well or both do not, if their backends make the same of every request. -/
theorem converse_agree (hleft : ∀ s s', Going s s' → Left s s')
    (hperform : ∀ user request state state' input input', Going state state' →
      input.Same input' →
      (b.perform state user request input).Agree Going Left
        (b'.perform state' user request input'))
    (chunk chunk' : Nat) {state state' : σ} {input input' : Source} {output output' : Sink}
    (hstate : Going state state') (hinput : input.Same input') (hout : output.Willing)
    (hnew : output.bytes = []) (hout' : output'.Willing) (hnew' : output'.bytes = []) :
    let t := converse b chunk state input output
    let t' := converse b' chunk' state' input' output'
    t'.exchanges.map (·.reply) = t.exchanges.map (·.reply) ∧ t'.written = t.written ∧
      t'.ending.isOk = t.ending.isOk ∧ Left t.state t'.state := by
  intro t t'
  obtain ⟨replies, close, hspeech, hexchanges, hending, -⟩ :=
    speech_converse b chunk state input hout hnew
  obtain ⟨replies', close', hspeech', hexchanges', hending', -⟩ :=
    speech_converse b' chunk' state' input' hout' hnew'
  obtain ⟨hreplies, hremnant, hclose, hlast⟩ :=
    hspeech.agree hleft hperform hspeech' hstate hinput
  have hsaid : t'.exchanges.map (·.reply) = t.exchanges.map (·.reply) := by
    rw [hexchanges, hexchanges', hreplies, hremnant]
  refine ⟨hsaid, ?_, ?_, hlast⟩
  · rw [Transcript.written, Transcript.written, List.flatMap_def, List.flatMap_def, hsaid]
  · rw [hending, hending', hclose]

end UserVault.Session
