import TailscaleVita.Run
/-!
# Threads — calls in progress over one locked state

A `call` takes the lock once, or begins a longer call; `resume` is the next section of a call in progress. `World.step`
interleaves them in any way, one section at a time, under a clock that only goes forward; `log` keeps what can be
observed.
-/
namespace TailscaleVita

open List

structure Threads (σ θ ω ν ι : Type) where
  call : (now : Nat) → σ → ν → σ × Option θ × List ω
  resume : (now id : Nat) → σ → θ → ι → σ × θ × List ω

structure World (σ θ ω : Type) where
  clock : Nat := 0
  shared : σ
  tasks : List θ := []
  log : List ω := []

inductive WorldEvent (ν ι : Type) where
  | wait (elapsed : Nat)
  | call (request : ν)
  | resume (id : Nat) (input : ι)

section

variable {σ θ ω ν ι : Type} (T : Threads σ θ ω ν ι)

def World.step (w : World σ θ ω) : WorldEvent ν ι → World σ θ ω
  | .wait elapsed => { w with clock := w.clock + elapsed }
  | .call request =>
    let r := T.call w.clock w.shared request
    { w with shared := r.1, tasks := w.tasks ++ r.2.1.toList, log := w.log ++ r.2.2 }
  | .resume id input =>
    match w.tasks[id]? with
    | none => w
    | some t =>
      let r := T.resume w.clock id w.shared t input
      { w with shared := r.1, tasks := w.tasks.set id r.2.1, log := w.log ++ r.2.2 }

theorem World.step_cases (w : World σ θ ω) (e : WorldEvent ν ι) :
    (∃ d, w.step T e = { w with clock := w.clock + d }) ∨
    (∃ request, e = .call request ∧ w.step T e =
      { w with
        shared := (T.call w.clock w.shared request).1
        tasks := w.tasks ++ (T.call w.clock w.shared request).2.1.toList
        log := w.log ++ (T.call w.clock w.shared request).2.2 }) ∨
    ∃ id t input, e = .resume id input ∧ w.tasks[id]? = some t ∧ w.step T e =
      { w with
        shared := (T.resume w.clock id w.shared t input).1
        tasks := w.tasks.set id (T.resume w.clock id w.shared t input).2.1
        log := w.log ++ (T.resume w.clock id w.shared t input).2.2 } := by
  cases e with
  | wait d => exact .inl ⟨d, rfl⟩
  | call request => exact .inr (.inl ⟨request, rfl, rfl⟩)
  | resume id input =>
    cases ht : w.tasks[id]? with
    | none =>
      refine .inl ⟨0, ?_⟩
      simp only [World.step, ht]
      rfl
    | some t =>
      refine .inr (.inr ⟨id, t, input, rfl, ht, ?_⟩)
      simp [World.step, ht]

theorem World.step_resume {w : World σ θ ω} {id : Nat} {t : θ} (ht : w.tasks[id]? = some t) (input : ι) :
    (w.step T (.resume id input)).shared = (T.resume w.clock id w.shared t input).1 ∧
      (w.step T (.resume id input)).tasks[id]? = some (T.resume w.clock id w.shared t input).2.1 := by
  simp only [World.step, ht]
  exact ⟨trivial, List.getElem?_set_self (List.getElem?_eq_some_iff.1 ht).1⟩

theorem World.run_none {id : Nat} {w : World σ θ ω} (h : w.tasks[id]? = none) :
    ∀ inputs : List ι, run (World.step T) w (inputs.map (.resume id)) = w
  | [] => rfl
  | input :: inputs => by
    rw [map_cons, run_cons, show w.step T (.resume id input) = w by simp only [World.step, h]]
    exact World.run_none h inputs

theorem World.task_step {w : World σ θ ω} {id : Nat} {t : θ} (ht : w.tasks[id]? = some t) (e : WorldEvent ν ι) :
    (w.step T e).tasks[id]? = some t ∨ ∃ input, e = .resume id input := by
  have hlt : id < w.tasks.length := (List.getElem?_eq_some_iff.1 ht).1
  rcases w.step_cases T e with ⟨d, hd⟩ | ⟨request, -, hr⟩ | ⟨id', t', input, he, hid, hr⟩
  · rw [hd]
    exact .inl ht
  · rw [hr]
    exact .inl ((getElem?_append_left hlt).trans ht)
  · by_cases hself : id' = id
    · exact .inr ⟨input, by rw [he, hself]⟩
    · rw [hr]
      exact .inl ((getElem?_set_ne hself).trans ht)

theorem World.task_keeps {id : Nat} (inv : θ → Prop)
    (hresume : ∀ now s t input, inv t → inv (T.resume now id s t input).2.1) (w : World σ θ ω) (e : WorldEvent ν ι)
    (h : ∃ t, w.tasks[id]? = some t ∧ inv t) : ∃ t, (w.step T e).tasks[id]? = some t ∧ inv t := by
  obtain ⟨t, ht, hinv⟩ := h
  obtain hsame | ⟨input, rfl⟩ := World.task_step T ht e
  · exact ⟨t, hsame, hinv⟩
  · exact ⟨_, (World.step_resume T ht input).2, hresume _ _ t input hinv⟩

theorem World.alone_keeps {id : Nat} (inv : σ → θ → Prop) (inputs : List ι)
    (hresume : ∀ now s t, ∀ input ∈ inputs, inv s t →
      inv (T.resume now id s t input).1 (T.resume now id s t input).2.1)
    (w : World σ θ ω) (h : ∀ t, w.tasks[id]? = some t → inv w.shared t) :
    ∀ t, (run (World.step T) w (inputs.map (.resume id))).tasks[id]? = some t →
      inv (run (World.step T) w (inputs.map (.resume id))).shared t := by
  induction inputs generalizing w with
  | nil => exact h
  | cons input inputs ih =>
    refine ih (fun now s t i hi => hresume now s t i (mem_cons_of_mem input hi)) (w.step T (.resume id input))
      (fun t' ht' => ?_)
    cases ht : w.tasks[id]? with
    | none =>
      have hsame : w.step T (.resume id input) = w := by simp only [World.step, ht]
      rw [hsame, ht] at ht'
      cases ht'
    | some t =>
      obtain ⟨hshared, hnext⟩ := World.step_resume T ht input
      rw [hnext] at ht'
      cases ht'
      rw [hshared]
      exact hresume _ _ t input mem_cons_self (h t ht)

theorem World.tasks_keep (inv : Nat → List ω → θ → Prop)
    (hmono : ∀ {c c' log more t}, c ≤ c' → inv c log t → inv c' (log ++ more) t)
    (hcall : ∀ now s log request t, (T.call now s request).2.1 = some t →
      inv now (log ++ (T.call now s request).2.2) t) (hresume : ∀ now id s log t input, inv now log t →
      inv now (log ++ (T.resume now id s t input).2.2) (T.resume now id s t input).2.1)
    (w : World σ θ ω) (e : WorldEvent ν ι) (h : ∀ t ∈ w.tasks, inv w.clock w.log t) :
    ∀ t ∈ (w.step T e).tasks, inv (w.step T e).clock (w.step T e).log t := by
  intro t ht
  rcases w.step_cases T e with ⟨d, hd⟩ | ⟨request, -, hr⟩ | ⟨id, t0, input, -, hid, hr⟩
  · rw [hd] at ht ⊢
    have hkept := @hmono w.clock (w.clock + d) w.log [] t (Nat.le_add_right w.clock d) (h t ht)
    rwa [append_nil] at hkept
  · rw [hr] at ht ⊢
    rcases mem_append.1 ht with ht | ht
    · exact hmono (Nat.le_refl _) (h t ht)
    · exact hcall _ _ _ _ _ (Option.mem_toList.1 ht)
  · rw [hr] at ht ⊢
    have hold : inv w.clock w.log t0 := h t0 (mem_of_getElem? hid)
    rcases mem_or_eq_of_mem_set ht with ht | rfl
    · exact hmono (Nat.le_refl _) (h t ht)
    · exact hresume _ _ _ _ _ _ hold

theorem sum_map_set (f : θ → Nat) (t t' : θ) : ∀ (ts : List θ) (i : Nat), ts[i]? = some t →
    ((ts.set i t').map f).sum + f t = (ts.map f).sum + f t'
  | [], _, h => by cases h
  | u :: ts, 0, h => by
    cases h
    simp only [set_cons_zero, map_cons, sum_cons]
    omega
  | u :: ts, i + 1, h => by
    have ih := sum_map_set f t t' ts i h
    simp only [set_cons_succ, map_cons, sum_cons]
    omega

def World.Balanced (held : σ → Nat) (owed : θ → Nat) (spent issued : List ω → Nat) (w : World σ θ ω) : Prop :=
  held w.shared + (w.tasks.map owed).sum + spent w.log ≤ issued w.log

theorem World.balanced_step (held : σ → Nat) (owed : θ → Nat) (spent issued : List ω → Nat)
    (hspent : ∀ l l', spent (l ++ l') = spent l + spent l') (hissued : ∀ l l', issued (l ++ l') = issued l + issued l')
    (hcall : ∀ now s request, held (T.call now s request).1 + (T.call now s request).2.1.elim 0 owed +
      spent (T.call now s request).2.2 ≤ held s + issued (T.call now s request).2.2)
    (hresume : ∀ now id s t input, held (T.resume now id s t input).1 + owed (T.resume now id s t input).2.1 +
      spent (T.resume now id s t input).2.2 ≤ held s + owed t + issued (T.resume now id s t input).2.2)
    (w : World σ θ ω) (e : WorldEvent ν ι) (h : w.Balanced held owed spent issued) :
    (w.step T e).Balanced held owed spent issued := by
  unfold World.Balanced at h ⊢
  rcases w.step_cases T e with ⟨d, hd⟩ | ⟨request, -, hr⟩ | ⟨id, t, input, -, hid, hr⟩
  · rwa [hd]
  · have hkeep := hcall w.clock w.shared request
    rw [hr]
    simp only [hspent, hissued, map_append, sum_append]
    have hnew : ((T.call w.clock w.shared request).2.1.toList.map owed).sum =
        (T.call w.clock w.shared request).2.1.elim 0 owed := by
      cases (T.call w.clock w.shared request).2.1 <;> simp
    omega
  · have hkeep := hresume w.clock id w.shared t input
    have hset := sum_map_set owed t (T.resume w.clock id w.shared t input).2.1 w.tasks id hid
    rw [hr]
    simp only [hspent, hissued]
    omega

end

end TailscaleVita
