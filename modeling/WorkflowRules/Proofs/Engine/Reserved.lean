import WorkflowRules.Proofs.Engine.Evolution

/-!
# Reserved instances

From the loading of an instance to the commit of its transition, the instance is reserved for the call.
What the hooks before the commit set off may commit transitions of other instances. To fire an event on
this one it would have to wait until the call gives it back, and the call waits for it. So whoever comes
to the commit finds the instance as it was loaded.

* `Engine.transition_reserved` — firing an event on a reserved instance never comes to an end
* `Engine.Reserves` — an instance is left as it is
* `Engine.runBeforeHooks_reserves` — the hooks before a commit leave the reserved instance as it is
-/

namespace WorkflowRules.Engine

open Operation (Keeps)

variable {e e' : Engine} {key : InstanceKey}

/-- Whoever fires an event on an instance that is reserved waits for ever, and nothing has happened. -/
theorem transition_reserved {publish : Publish} {workflow entityId : String} {d : Definition}
    (held : (workflow, entityId) ∈ publish.held) (registered : e.registry.get? workflow = some d)
    (event : String) (context : TransitionContext) :
    transition publish workflow entityId event context e = (.error (.breakdown .waiting), e) := by
  have hd : lookup workflow e = (.ok d, e) := by rw [lookup_apply, registered]
  have waits : reserve publish.held (workflow, entityId) e = (.error (.breakdown .waiting), e) := by
    rw [reserve_apply, if_pos held]
  have hadvance : advance publish workflow entityId event context e =
      (.error (.breakdown .waiting), e) := by
    unfold advance
    rw [Operation.bind_ok _ hd, Operation.bind_error _ waits]
  unfold transition settle
  rw [Operation.bind_error _ (Operation.bind_error _ hadvance)]

/-! ## What is left as it is -/

/-- An orderly engine stays so, and what is stored of the instance is the same. -/
structure Reserves (key : InstanceKey) (e e' : Engine) : Prop where
  orderly : e'.Orderly ↔ e.Orderly
  same : e.Orderly → e'.stored? key = e.stored? key

theorem Reserves.of_same (store : e'.store = e.store) (registry : e'.registry = e.registry) :
    Reserves key e e' :=
  ⟨orderly_congr store registry, fun _ => by rw [stored?, stored?, store]⟩

theorem Reserves.trans {c : Engine} (h₁ : Reserves key e e') (h₂ : Reserves key e' c) :
    Reserves key e c :=
  ⟨h₂.orderly.trans h₁.orderly, fun ho => (h₂.same (h₁.orderly.2 ho)).trans (h₁.same ho)⟩

/-- A commit of another instance. -/
theorem reserves_commit {i : Instance} (other : e.Orderly → i.key ≠ key) (state : String)
    (entry : HistoryEntry) : Reserves key e (onStoreOf (Store.commit i state entry) e).2 where
  orderly := orderly_commit i state entry e
  same ho := by
    rcases ho.commit_cases i state entry with hsame | ⟨now, -, -, hnext⟩
    · exact hsame key
    · rw [hnext, if_neg (other ho).symm]

/-- As long as an instance is reserved, every step leaves it as it is. -/
theorem Reserves.respected (key : InstanceKey) : RespectedExcept [key] (Reserves key) where
  refl _ := .of_same rfl rfl
  trans _ _ _ := Reserves.trans
  observe _ _ _ := .of_same rfl rfl
  now _ := .of_same rfl rfl
  newIdentifier _ := .of_same rfl rfl
  nextCall _ := .of_same rfl rfl
  commit {e e' d i t workflow entityId event} context free _ hi _ h := by
    have hnow : Reserves key e' (now e').2 := .of_same rfl rfl
    have other (ho : (now e').2.Orderly) : i.key ≠ key := by
      -- What was loaded carries its own key, and that is not the reserved one.
      have before := h.orderly.1 (hnow.orderly.1 ho)
      obtain ⟨stored, hstored, rfl⟩ := before.stored_of_get? hi
      rw [before.key_eq hstored]
      exact fun heq => free (List.mem_singleton.2 heq)
    exact hnow.trans (reserves_commit other _ _)
  bypass {e e' name hook n seen state event} entry _ _ _ := by
    refine ⟨?_, fun ho => ?_⟩
    · rcases commitDirectly_cases seen.subject state entry e' with same | same <;> rw [same]
      exact orderly_commit _ _ _ _
    · obtain ⟨s, hs, -⟩ := ho.store
      rw [commitDirectly_memory hs]

/-- Whatever the hooks before a commit set off, the instance that is going to be committed stays. -/
theorem runBeforeHooks_reserves (key : InstanceKey) (seen : HookContext) (names : List String) :
    Keeps (Reserves key) (runBeforeHooks (publish.holding key) seen names) :=
  runBeforeHooks_keeps (Reserves.respected key)
    ⟨List.Subset.refl _, fun _ reserved =>
      publishWith_keeps (Reserves.respected key) (fun _ _ => .of_same rfl rfl) reserved⟩ seen names

end WorkflowRules.Engine
