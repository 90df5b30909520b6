import TailscaleVita.Run
/-!
# Calls — programs that call their environment

A program is done, or makes a call and goes on with the answer; `exec` runs it in an environment. `Meets` says that
every call a program can make, whatever it is answered, has one property, and every result another; `Tracks`, that a
program keeps to a protocol.
-/
namespace TailscaleVita

inductive Prog (κ : Type) (ρ : κ → Type) (α : Type) where
  | done (a : α)
  | call (c : κ) (next : ρ c → Prog κ ρ α)

namespace Prog

variable {κ : Type} {ρ : κ → Type} {α β σ : Type}

def bind : Prog κ ρ α → (α → Prog κ ρ β) → Prog κ ρ β
  | .done a, f => f a
  | .call c next, f => .call c (fun r => (next r).bind f)

instance : Monad (Prog κ ρ) where
  pure := .done
  bind := .bind

def perform (c : κ) : Prog κ ρ (ρ c) := .call c .done

section

variable (env : (c : κ) → σ → ρ c × σ)

def exec : Prog κ ρ α → σ → α × σ
  | .done a, w => (a, w)
  | .call c next, w => (next (env c w).1).exec (env c w).2

def calls : Prog κ ρ α → σ → List κ
  | .done _, _ => []
  | .call c next, w => c :: (next (env c w).1).calls (env c w).2

theorem calls_call (c : κ) (next : ρ c → Prog κ ρ α) (w : σ) :
    (Prog.call c next).calls env w = c :: (next (env c w).1).calls env (env c w).2 := rfl

theorem exec_bind (f : α → Prog κ ρ β) : ∀ (m : Prog κ ρ α) (w : σ),
    (m >>= f).exec env w = (f (m.exec env w).1).exec env (m.exec env w).2
  | .done _, _ => rfl
  | .call c next, w => exec_bind f (next (env c w).1) (env c w).2

theorem exec_ite (m : Prog κ ρ Bool) (a b : Prog κ ρ α) (w : σ) :
    (m >>= fun ok => if ok = true then a else b).exec env w =
      if (m.exec env w).1 = true then a.exec env (m.exec env w).2 else b.exec env (m.exec env w).2 := by
  rw [exec_bind]
  split <;> rfl

theorem calls_bind (f : α → Prog κ ρ β) : ∀ (m : Prog κ ρ α) (w : σ),
    (m >>= f).calls env w = m.calls env w ++ (f (m.exec env w).1).calls env (m.exec env w).2
  | .done _, _ => rfl
  | .call c next, w => congrArg (c :: ·) (calls_bind f (next (env c w).1) (env c w).2)

end

def Meets (P : κ → Prop) (Q : α → Prop) : Prog κ ρ α → Prop
  | .done a => Q a
  | .call c next => P c ∧ ∀ r, (next r).Meets P Q

variable {P : κ → Prop} {Q : α → Prop}

theorem Meets.bind {R : β → Prop} {f : α → Prog κ ρ β} : ∀ {m : Prog κ ρ α}, Meets P Q m →
    (∀ a, Q a → Meets P R (f a)) → Meets P R (m >>= f)
  | .done a, hm, hf => hf a hm
  | .call _ _, hm, hf => ⟨hm.1, fun r => Meets.bind (hm.2 r) hf⟩

theorem Meets.mono {P' : κ → Prop} {Q' : α → Prop} (hP : ∀ c, P c → P' c) (hQ : ∀ a, Q a → Q' a) :
    ∀ {m : Prog κ ρ α}, Meets P Q m → Meets P' Q' m
  | .done a, h => hQ a h
  | .call c _, h => ⟨hP c h.1, fun r => Meets.mono hP hQ (h.2 r)⟩

theorem Meets.and {P' : κ → Prop} : ∀ {m : Prog κ ρ α}, Meets P Q m → Meets P' Q m → Meets (fun c => P c ∧ P' c) Q m
  | .done _, h, _ => h
  | .call _ _, h, h' => ⟨⟨h.1, h'.1⟩, fun r => Meets.and (h.2 r) (h'.2 r)⟩

theorem Meets.exec (env : (c : κ) → σ → ρ c × σ) : ∀ {m : Prog κ ρ α} (w : σ), Meets P Q m →
    (∀ c ∈ m.calls env w, P c) ∧ Q (m.exec env w).1
  | .done _, _, h => ⟨fun c hc => (by cases hc), h⟩
  | .call c _, w, h => by
    obtain ⟨hcalls, hres⟩ := Meets.exec env (env c w).2 (h.2 (env c w).1)
    refine ⟨fun c' hc' => ?_, hres⟩
    rcases List.mem_cons.1 hc' with rfl | hc'
    · exact h.1
    · exact hcalls c' hc'

/-- An environment whose answers depend on inputs, fed one to each call. -/
def fed {ι : Type} (env : ι → (c : κ) → σ → ρ c × σ) (c : κ) (w : σ × (Nat → ι)) : ρ c × (σ × (Nat → ι)) :=
  ((env (w.2 0) c w.1).1, (env (w.2 0) c w.1).2, fun i => w.2 (i + 1))

section

variable {κ' : Type} {ρ' : κ' → Type}

def lift (f : κ → κ') (back : ∀ c, ρ' (f c) → ρ c) : Prog κ ρ α → Prog κ' ρ' α
  | .done a => .done a
  | .call c next => .call (f c) (fun r => (next (back c r)).lift f back)

variable {f : κ → κ'} {back : ∀ c, ρ' (f c) → ρ c}

theorem exec_lift {env : (c : κ) → σ → ρ c × σ} {env' : (c : κ') → σ → ρ' c × σ}
    (h : ∀ c w, back c (env' (f c) w).1 = (env c w).1 ∧ (env' (f c) w).2 = (env c w).2) :
    ∀ (m : Prog κ ρ α) (w : σ), (m.lift f back).exec env' w = m.exec env w
  | .done _, _ => rfl
  | .call c next, w => by
    show ((next (back c (env' (f c) w).1)).lift f back).exec env' (env' (f c) w).2 =
      (next (env c w).1).exec env (env c w).2
    rw [(h c w).1, (h c w).2]
    exact exec_lift h (next (env c w).1) (env c w).2

theorem Meets.lift {P' : κ' → Prop} (h : ∀ c, P c → P' (f c)) : ∀ {m : Prog κ ρ α}, Meets P Q m →
    Meets P' Q (m.lift f back)
  | .done _, hm => hm
  | .call c _, hm => ⟨h c hm.1, fun r => Meets.lift h (hm.2 (back c r))⟩

end

/-! ## Protocols -/

end Prog

structure Protocol (κ : Type) (ρ : κ → Type) (τ : Type) where
  may : τ → κ → Prop
  after : τ → (c : κ) → ρ c → τ

def Protocol.prod {κ : Type} {ρ : κ → Type} {τ τ' : Type} (p : Protocol κ ρ τ) (q : Protocol κ ρ τ') :
    Protocol κ ρ (τ × τ') where
  may t c := p.may t.1 c ∧ q.may t.2 c
  after t c r := (p.after t.1 c r, q.after t.2 c r)

namespace Prog

variable {κ : Type} {ρ : κ → Type} {α β τ : Type} {p : Protocol κ ρ τ} {Q : τ → α → Prop}

def Tracks (p : Protocol κ ρ τ) (Q : τ → α → Prop) : τ → Prog κ ρ α → Prop
  | t, .done a => Q t a
  | t, .call c next => p.may t c ∧ ∀ r, Tracks p Q (p.after t c r) (next r)

theorem Tracks.bind {R : τ → β → Prop} {f : α → Prog κ ρ β} : ∀ {t : τ} {m : Prog κ ρ α}, Tracks p Q t m →
    (∀ t a, Q t a → Tracks p R t (f a)) → Tracks p R t (m >>= f)
  | t, .done a, hm, hf => hf t a hm
  | _, .call _ _, hm, hf => ⟨hm.1, fun r => Tracks.bind (hm.2 r) hf⟩

theorem Tracks.mono {Q' : τ → α → Prop} (h : ∀ t a, Q t a → Q' t a) : ∀ {t : τ} {m : Prog κ ρ α}, Tracks p Q t m →
    Tracks p Q' t m
  | t, .done a, hm => h t a hm
  | _, .call _ _, hm => ⟨hm.1, fun r => Tracks.mono h (hm.2 r)⟩

theorem Tracks.ite {m k : Prog κ ρ Bool} {Q : τ → Bool → Prop} {t : τ} (hm : Tracks p Q t m)
    (hk : ∀ t, Q t true → Tracks p (fun _ _ => True) t k) :
    Tracks p (fun _ _ => True) t (m >>= fun ok => if ok = true then k else pure false) :=
  hm.bind fun t ok hq => match ok, hq with
    | true, hq => hk t hq
    | false, _ => trivial

theorem Tracks.of_meets {P : κ → Prop} {R : α → Prop} {t : τ} (h : ∀ c, P c → p.may t c ∧ ∀ r, p.after t c r = t) :
    ∀ {m : Prog κ ρ α}, Meets P R m → Tracks p (fun t' a => t' = t ∧ R a) t m
  | .done _, hm => ⟨rfl, hm⟩
  | .call c next, hm => by
    refine ⟨(h c hm.1).1, fun r => ?_⟩
    rw [(h c hm.1).2 r]
    exact Tracks.of_meets h (hm.2 r)

theorem Tracks.meets {P : κ → Prop} {R : α → Prop} (hP : ∀ t c, p.may t c → P c) (hQ : ∀ t a, Q t a → R a) :
    ∀ {t : τ} {m : Prog κ ρ α}, Tracks p Q t m → Meets P R m
  | t, .done a, hm => hQ t a hm
  | t, .call c _, hm => ⟨hP t c hm.1, fun r => Tracks.meets hP hQ (hm.2 r)⟩

theorem Tracks.weaken {p' : Protocol κ ρ τ} {Q' : τ → α → Prop}
    (h : ∀ t c, p.may t c → p'.may t c ∧ ∀ r, p'.after t c r = p.after t c r) (hQ : ∀ t a, Q t a → Q' t a) :
    ∀ {t : τ} {m : Prog κ ρ α}, Tracks p Q t m → Tracks p' Q' t m
  | t, .done a, hm => hQ t a hm
  | t, .call c next, hm => by
    refine ⟨(h t c hm.1).1, fun r => ?_⟩
    rw [(h t c hm.1).2 r]
    exact Tracks.weaken h hQ (hm.2 r)

theorem Tracks.prod {τ' : Type} {q : Protocol κ ρ τ'} : ∀ {t : τ} {u : τ'} {m : Prog κ ρ α},
    Tracks p (fun _ _ => True) t m → Tracks q (fun _ _ => True) u m → Tracks (p.prod q) (fun _ _ => True) (t, u) m
  | _, _, .done _, _, _ => trivial
  | _, _, .call _ _, hp, hq => ⟨⟨hp.1, hq.1⟩, fun r => Tracks.prod (hp.2 r) (hq.2 r)⟩

/-! ## Call by call -/

variable {σ ι : Type}

def resume (env : (c : κ) → σ → ρ c × σ) : Prog κ ρ α → σ → Prog κ ρ α × σ
  | .done a, w => (.done a, w)
  | .call c next, w => (next (env c w).1, (env c w).2)

def At (p : Protocol κ ρ τ) (rel : τ → σ → Prop) (s : Prog κ ρ α × σ) : Prop :=
  ∃ t, Tracks p (fun _ _ => True) t s.1 ∧ rel t s.2

/-- The rule for a program stopped anywhere: what goes with the protocol before a call goes with it after. -/
theorem At.resume {rel : τ → σ → Prop} {env : (c : κ) → σ → ρ c × σ} : ∀ {s : Prog κ ρ α × σ}, At p rel s →
    (∀ t c next, s.1 = .call c next → p.may t c → rel t s.2 → rel (p.after t c (env c s.2).1) (env c s.2).2) →
    At p rel (resume env s.1 s.2)
  | (.done _, _), h, _ => h
  | (.call c next, w), ⟨t, ht, hw⟩, hstep => ⟨p.after t c (env c w).1, ht.2 _, hstep t c next rfl ht.1 hw⟩

/-- The world of a program that is stopped after as many calls as there are inputs. -/
def cut (env : ι → (c : κ) → σ → ρ c × σ) (m : Prog κ ρ α) (w : σ) (is : List ι) : σ :=
  (run (fun s i => resume (env i) s.1 s.2) (m, w) is).2

theorem Tracks.cut (env : ι → (c : κ) → σ → ρ c × σ) (rel : τ → σ → Prop) {t : τ} {m : Prog κ ρ α} {w : σ}
    (hm : Tracks p (fun _ _ => True) t m) (hw : rel t w)
    (hstep : ∀ i t c w, p.may t c → rel t w → rel (p.after t c (env i c w).1) (env i c w).2) (is : List ι) :
    ∃ t, rel t (cut env m w is) := by
  have hat : At p rel (run (fun s i => Prog.resume (env i) s.1 s.2) (m, w) is) :=
    run_keeps (At p rel) (fun s i h => h.resume (fun t c _ _ hmay hrel => hstep i t c s.2 hmay hrel)) is (m, w)
      ⟨t, hm, hw⟩
  obtain ⟨t', -, hw'⟩ := hat
  exact ⟨t', hw'⟩

theorem Meets.cut (env : ι → (c : κ) → σ → ρ c × σ) (rel : σ → Prop) {P : κ → Prop} {R : α → Prop} {m : Prog κ ρ α}
    {w : σ} (hm : Meets P R m) (hw : rel w) (hstep : ∀ i c w, P c → rel w → rel (env i c w).2) (is : List ι) :
    rel (Prog.cut env m w is) := by
  have htracks : Tracks (⟨fun _ c => P c, fun t _ _ => t⟩ : Protocol κ ρ Unit) (fun t' a => t' = () ∧ R a) () m :=
    Tracks.of_meets (fun _ hc => ⟨hc, fun _ => rfl⟩) hm
  obtain ⟨-, hrel⟩ := (htracks.mono (fun _ _ _ => trivial)).cut env (fun _ => rel) hw
    (fun i _ c w hc hrel => hstep i c w hc hrel) is
  exact hrel

end Prog

end TailscaleVita
