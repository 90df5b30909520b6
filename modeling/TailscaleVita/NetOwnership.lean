import TailscaleVita.HashMap
import TailscaleVita.NetSocket
import TailscaleVita.StdNet
/-!
# NetOwnership — who owns the sockets of the stack

The `SocketSet`, the registry of `HandleSlot`s, and those who hold handles into both: listeners with their pools,
streams, and the calls still on their way. Between two steps of a call any other call may come. A `connect` puts its
socket into the set before it knows that it can go on; refused by the address or by `smoltcp`, it returns and nobody
owns the socket (`socket_ownership_iff`).
-/
namespace TailscaleVita.Net

open List

structure Endpoint where
  state : State
  remote : Option SocketAddr := none

abbrev Held := Nat × Nat

structure SocketSet where
  sockets : List (Option Endpoint) := []
  slots : HashMap Nat Nat := ∅
  fresh : Nat := 0

namespace SocketSet

def freeIndex : List (Option Endpoint) → Nat
  | [] => 0
  | none :: _ => 0
  | some _ :: l => freeIndex l + 1

def put : List (Option Endpoint) → Nat → Option Endpoint → List (Option Endpoint)
  | [], _, e => [e]
  | _ :: l, 0, e => e :: l
  | x :: l, n + 1, e => x :: put l n e

def add (c : SocketSet) (e : Endpoint) : Nat × SocketSet :=
  let h := freeIndex c.sockets
  (h, { c with sockets := put c.sockets h (some e) })

def get (c : SocketSet) (h : Nat) : Option Endpoint := (c.sockets[h]?).join

def set (c : SocketSet) (h : Nat) (e : Endpoint) : SocketSet :=
  if (c.get h).isSome then { c with sockets := c.sockets.set h (some e) } else c

def remove (c : SocketSet) (h : Nat) : SocketSet := { c with sockets := c.sockets.set h none }

def register (c : SocketSet) (h : Nat) : Nat × SocketSet :=
  (c.fresh, { c with slots := c.slots.insert h c.fresh, fresh := c.fresh + 1 })

def unregister (c : SocketSet) (h : Nat) : SocketSet := { c with slots := c.slots.erase h }

structure Owns (c : SocketSet) (held : List Held) (leaving : List Nat) : Prop where
  nodup : (held.map Prod.fst ++ leaving).Nodup
  sockets : ∀ h, (c.get h).isSome = true ↔ h ∈ held.map Prod.fst ++ leaving
  slots : ∀ h slot, c.slots.lookup h = some slot ↔ (h, slot) ∈ held

theorem freeIndex_free : ∀ l : List (Option Endpoint), (l[freeIndex l]?).join = none
  | [] => rfl
  | none :: _ => rfl
  | some _ :: l => freeIndex_free l

theorem put_get : ∀ (l : List (Option Endpoint)) (n m : Nat) (e : Option Endpoint), n ≤ l.length →
    ((put l n e)[m]?).join = if m = n then e else (l[m]?).join
  | [], n, m, e, hn => by
    obtain rfl : n = 0 := Nat.le_zero.1 hn
    cases m <;> simp [put]
  | x :: l, 0, m, e, _ => by cases m <;> simp [put]
  | x :: l, n + 1, 0, e, _ => by simp [put]
  | x :: l, n + 1, m + 1, e, hn => by
    simpa [put] using put_get l n m e (Nat.le_of_succ_le_succ hn)

theorem freeIndex_le : ∀ l : List (Option Endpoint), freeIndex l ≤ l.length
  | [] => Nat.le_refl 0
  | none :: _ => Nat.zero_le _
  | some _ :: l => Nat.succ_le_succ (freeIndex_le l)

theorem get_add (c : SocketSet) (e : Endpoint) (h : Nat) :
    (c.add e).2.get h = if h = (c.add e).1 then some e else c.get h :=
  put_get c.sockets _ h (some e) (freeIndex_le c.sockets)

theorem get_add_free (c : SocketSet) (e : Endpoint) : c.get (c.add e).1 = none := freeIndex_free c.sockets

theorem get_remove (c : SocketSet) (h h' : Nat) : (c.remove h).get h' = if h' = h then none else c.get h' := by
  unfold remove get
  rw [getElem?_set]
  by_cases he : h = h'
  · subst he
    by_cases hl : h < c.sockets.length <;> simp [hl]
  · rw [if_neg he, if_neg (Ne.symm he)]

theorem isSome_get_set (c : SocketSet) (h : Nat) (e : Endpoint) (h' : Nat) :
    ((c.set h e).get h').isSome = (c.get h').isSome := by
  unfold set
  split
  · next hs =>
    unfold get at hs ⊢
    rw [getElem?_set]
    by_cases he : h = h'
    · subst he
      by_cases hl : h < c.sockets.length
      · rw [if_pos rfl, if_pos hl, hs]
        rfl
      · simp [hl] at hs
    · rw [if_neg he]
  · rfl

theorem register_set (c : SocketSet) (h : Nat) (e : Endpoint) (x : Nat) :
    (c.set h e).register x = (c.fresh, (c.register x).2.set h e) := by
  unfold set
  show _ = (c.fresh, if (c.get h).isSome then _ else _)
  split <;> rfl

section

variable {c : SocketSet} {held : List Held} {leaving : List Nat}

theorem owns_perm {held' : List Held} {leaving' : List Nat} (h : c.Owns held leaving) (hp : held.Perm held')
    (hl : leaving.Perm leaving') : c.Owns held' leaving' := by
  have hall := (hp.map Prod.fst).append hl
  exact ⟨hall.nodup_iff.1 h.nodup, fun x => (h.sockets x).trans hall.mem_iff,
    fun x slot => (h.slots x slot).trans hp.mem_iff⟩

theorem owns_set (h : c.Owns held leaving) (x : Nat) (e : Endpoint) : (c.set x e).Owns held leaving := by
  refine ⟨h.nodup, fun y => ?_, fun y slot => ?_⟩
  · rw [isSome_get_set]
    exact h.sockets y
  · have hs : (c.set x e).slots = c.slots := by unfold set; split <;> rfl
    rw [hs]
    exact h.slots y slot

theorem owns_register (h : c.Owns held leaving) (e : Endpoint) :
    ((c.add e).2.register (c.add e).1).2.Owns (((c.add e).1, c.fresh) :: held) leaving := by
  have hfree : (c.add e).1 ∉ held.map Prod.fst ++ leaving := fun hm => by
    have := (h.sockets _).2 hm
    rw [get_add_free] at this
    cases this
  refine ⟨nodup_cons.2 ⟨hfree, h.nodup⟩, fun x => ?_, fun x slot => ?_⟩
  · show ((c.add e).2.get x).isSome = true ↔ _
    rw [get_add, map_cons, cons_append, mem_cons, ← h.sockets]
    by_cases hx : x = (c.add e).1
    · simp [hx]
    · simp [hx]
  · show (c.slots.insert (c.add e).1 c.fresh).lookup x = some slot ↔ _
    rw [HashMap.lookup_insert_eq, mem_cons, Prod.mk.injEq, ← h.slots]
    by_cases hx : x = (c.add e).1
    · have hnone : c.slots.lookup x ≠ some slot := fun hs =>
        hfree (mem_append_left _ (mem_map.2 ⟨_, (h.slots x slot).1 hs, hx⟩))
      rw [if_pos hx, or_iff_left hnone, Option.some.injEq, eq_comm, and_iff_right hx]
    · simp [hx]

variable {x : Nat}

theorem owns_unregister (slot : Nat) (h : c.Owns ((x, slot) :: held) leaving) :
    (c.unregister x).Owns held (x :: leaving) := by
  have hp : (x :: (held.map Prod.fst ++ leaving)).Perm (held.map Prod.fst ++ x :: leaving) := perm_middle.symm
  refine ⟨hp.nodup_iff.1 h.nodup, fun y => (h.sockets y).trans hp.mem_iff, fun y s => ?_⟩
  show (c.slots.erase x).lookup y = some s ↔ _
  rw [HashMap.lookup_erase_eq]
  by_cases hy : y = x
  · subst hy
    have hno : (y, s) ∉ held := fun hm =>
      (nodup_cons.1 h.nodup).1 (mem_append_left _ (mem_map.2 ⟨_, hm, rfl⟩))
    simp [hno]
  · rw [if_neg hy, h.slots, mem_cons]
    simp [hy]

theorem owns_remove (h : c.Owns held (x :: leaving)) : (c.remove x).Owns held leaving := by
  have hp : (held.map Prod.fst ++ x :: leaving).Perm (x :: (held.map Prod.fst ++ leaving)) := perm_middle
  have hnd := nodup_cons.1 (hp.nodup_iff.1 h.nodup)
  refine ⟨hnd.2, fun y => ?_, h.slots⟩
  rw [get_remove]
  by_cases hy : y = x
  · simp [hy, hnd.1]
  · rw [if_neg hy, h.sockets, hp.mem_iff, mem_cons, or_iff_right hy]

theorem owns_release (slot : Nat) (h : c.Owns ((x, slot) :: held) leaving) :
    ((c.unregister x).remove x).Owns held leaving := owns_remove (owns_unregister slot h)

theorem not_owns_add (h : c.Owns held leaving) (e : Endpoint) : ¬ (c.add e).2.Owns held leaving := fun h' => by
  have hin : ((c.add e).2.get (c.add e).1).isSome = true := by rw [get_add, if_pos rfl]; rfl
  have hout := (h.sockets _).2 ((h'.sockets _).1 hin)
  rw [get_add_free] at hout
  cases hout

end
end SocketSet

def swapRemove {α : Type} (l : List α) (i : Nat) : List α :=
  match l.getLast? with
  | none => l
  | some x => (l.set i x).dropLast

structure Listener where
  port : BitVec 16
  pool : List Held
  port_ne : port ≠ 0

def listen (port : BitVec 16) : Option Endpoint := if port = 0 then none else some { state := .listen }

def allocListeningSocket (c : SocketSet) (port : BitVec 16) : Option (Held × SocketSet) :=
  match listen port with
  | none => none
  | some e =>
    let (h, c) := c.add e
    let (slot, c) := c.register h
    some ((h, slot), c)

def allocPool (c : SocketSet) (port : BitVec 16) : Nat → List Held → SocketSet × Option (List Held)
  | 0, pool => (c, some pool)
  | n + 1, pool =>
    match allocListeningSocket c port with
    | none => (c, none)
    | some (fresh, c) => allocPool c port n (pool ++ [fresh])

def State.alive (s : State) : Bool := s = .listen || s = .established || s = .synReceived

def healPool (port : BitVec 16) : Nat → Nat → SocketSet → List Held → SocketSet × List Held
  | 0, _, c, pool => (c, pool)
  | n + 1, i, c, pool =>
    match pool[i]? with
    | none => (c, pool)
    | some (h, _) =>
      match c.get h with
      | none => (c, pool)
      | some e =>
        if e.state.alive then healPool port n (i + 1) c pool
        else
          let c := (c.unregister h).remove h
          match allocListeningSocket c port with
          | some (fresh, c) => healPool port n (i + 1) c (pool.set i fresh)
          | none => healPool port n i c (swapRemove pool i)

def findEstablished (c : SocketSet) (pool : List Held) : Option Nat :=
  pool.findIdx? fun p =>
    match c.get p.1 with
    | some e => e.state = .established && e.remote.isSome
    | none => false

def tryClaimEstablished (c : SocketSet) (port : BitVec 16) (pool : List Held) : SocketSet × List Held × Option Held :=
  let (c, pool) := healPool port pool.length 0 c pool
  match findEstablished c pool with
  | none => (c, pool, none)
  | some i =>
    match pool[i]? with
    | none => (c, pool, none)
    | some claimed =>
      match allocListeningSocket c port with
      | none => (c, swapRemove pool i, none)
      | some (fresh, c) => (c, swapRemove pool i ++ [fresh], some claimed)

section

variable {α : Type} {l : List α} {i : Nat} {x : α}

theorem perm_eraseIdx (h : l[i]? = some x) : l.Perm (x :: l.eraseIdx i) := by
  obtain ⟨hi, rfl⟩ := List.getElem?_eq_some_iff.1 h
  exact (List.getElem_cons_eraseIdx_perm hi).symm

theorem set_perm (h : l[i]? = some x) (y : α) : (l.set i y).Perm (y :: l.eraseIdx i) :=
  List.set_perm_cons_eraseIdx (List.getElem?_eq_some_iff.1 h).1 y

theorem swapRemove_perm (h : l[i]? = some x) : (swapRemove l i).Perm (l.eraseIdx i) := by
  obtain ⟨hi, -⟩ := List.getElem?_eq_some_iff.1 h
  obtain ⟨init, z, rfl⟩ : ∃ init z, l = init ++ [z] :=
    ⟨l.dropLast, l.getLast (List.ne_nil_of_length_pos (Nat.zero_lt_of_lt hi)), (List.dropLast_append_getLast _).symm⟩
  unfold swapRemove
  rw [List.getLast?_concat]
  dsimp only
  by_cases hz : i < init.length
  · -- the last one takes the place of the one removed
    have hget : init[i]? = some init[i] := List.getElem?_eq_getElem hz
    rw [List.set_append_left _ _ hz, List.eraseIdx_append_of_lt_length hz]
    simpa using (set_perm hget z).trans (List.perm_append_singleton z _).symm
  · obtain rfl : i = init.length := by
      rw [List.length_append, List.length_singleton] at hi
      omega
    simp [List.eraseIdx_append_of_length_le]

end

section

variable {c : SocketSet} {port : BitVec 16} {held rest : List Held} {leaving : List Nat}

theorem allocListeningSocket_owns (hp : port ≠ 0) (h : c.Owns held leaving) :
    ∃ fresh c', allocListeningSocket c port = some (fresh, c') ∧ c'.Owns (fresh :: held) leaving := by
  refine ⟨_, _, ?_, SocketSet.owns_register h { state := .listen }⟩
  simp only [allocListeningSocket, listen, if_neg hp]
  rfl

theorem allocPool_owns (hp : port ≠ 0) : ∀ (n : Nat) (c : SocketSet) (pool : List Held),
    c.Owns (pool ++ rest) leaving →
      ∃ c' pool', allocPool c port n pool = (c', some pool') ∧ c'.Owns (pool' ++ rest) leaving
  | 0, c, pool, h => ⟨c, pool, rfl, h⟩
  | n + 1, c, pool, h => by
    obtain ⟨fresh, c', ha, h'⟩ := allocListeningSocket_owns hp h
    rw [allocPool, ha]
    refine allocPool_owns hp n c' (pool ++ [fresh]) (SocketSet.owns_perm h' ?_ (.refl _))
    rw [append_assoc]
    exact perm_middle.symm

theorem healPool_owns (hp : port ≠ 0) : ∀ (n i : Nat) (c : SocketSet) (pool : List Held),
    c.Owns (pool ++ rest) leaving →
      (healPool port n i c pool).1.Owns ((healPool port n i c pool).2 ++ rest) leaving
  | 0, _, _, _, h => h
  | n + 1, i, c, pool, h => by
    rw [healPool]
    cases hi : pool[i]? with
    | none => exact h
    | some p =>
      obtain ⟨x, slot⟩ := p
      dsimp only
      cases c.get x with
      | none => exact h
      | some e =>
        dsimp only
        split
        · exact healPool_owns hp n (i + 1) c pool h
        · have hfree := SocketSet.owns_release slot
            (SocketSet.owns_perm h ((perm_eraseIdx hi).append_right rest) (.refl _))
          obtain ⟨fresh, c', ha, h'⟩ := allocListeningSocket_owns hp hfree
          rw [ha]
          exact healPool_owns hp n (i + 1) c' (pool.set i fresh)
            (SocketSet.owns_perm h' ((set_perm hi fresh).symm.append_right rest) (.refl _))

theorem tryClaimEstablished_owns (hp : port ≠ 0) {pool : List Held} (h : c.Owns (pool ++ rest) leaving) :
    (tryClaimEstablished c port pool).1.Owns
      ((tryClaimEstablished c port pool).2.1 ++ ((tryClaimEstablished c port pool).2.2.toList ++ rest)) leaving := by
  have hheal := healPool_owns hp pool.length 0 c pool h
  unfold tryClaimEstablished
  generalize healPool port pool.length 0 c pool = r at hheal
  obtain ⟨c1, pool1⟩ := r
  dsimp only at hheal ⊢
  cases findEstablished c1 pool1 with
  | none => exact hheal
  | some i =>
    dsimp only
    cases hi : pool1[i]? with
    | none => exact hheal
    | some claimed =>
      obtain ⟨fresh, c2, ha, hown⟩ := allocListeningSocket_owns hp hheal
      rw [ha]
      refine SocketSet.owns_perm hown ?_ (.refl _)
      have hpool : pool1.Perm (claimed :: swapRemove pool1 i) :=
        (perm_eraseIdx hi).trans ((swapRemove_perm hi).symm.cons claimed)
      -- the claimed one goes to the streams, the new one to the end of the pool
      have hout : (fresh :: (pool1 ++ rest)).Perm (fresh :: claimed :: (swapRemove pool1 i ++ rest)) :=
        (hpool.append_right rest).cons fresh
      have hin : (swapRemove pool1 i ++ fresh :: claimed :: rest).Perm
          (fresh :: claimed :: (swapRemove pool1 i ++ rest)) :=
        perm_middle.trans (perm_middle.cons fresh)
      rw [append_assoc]
      exact hout.trans hin.symm

theorem releaseAll_owns : ∀ (pool : List Held) (c : SocketSet), c.Owns (pool ++ rest) leaving →
    (pool.foldl (fun c p => (c.unregister p.1).remove p.1) c).Owns rest leaving
  | [], _, h => h
  | p :: pool, _, h => releaseAll_owns pool _ (SocketSet.owns_release p.2 h)

end

structure Stack where
  set : SocketSet := {}
  listeners : List Listener := []
  streams : List Held := []
  connecting : List Held := []
  leaving : List Nat := []

/-- The steps of the calls, and of the network; `timedOut` and `drained` are how a wait has ended. -/
inductive StackEvent where
  | connect (addr : SocketAddr) (accepts : Bool)
  | connectLook (i : Nat) (timedOut : Bool)
  | bind (port : BitVec 16) (poolSize : Nat)
  | accept (i : Nat)
  | dropListener (i : Nat)
  | dropStream (i : Nat)
  | dropLook (i : Nat) (drained : Bool)
  | network (h : Nat) (e : Endpoint)

namespace Stack

def held (s : Stack) : List Held := s.listeners.flatMap Listener.pool ++ (s.streams ++ s.connecting)

/-- Every socket has exactly one owner, and every holder its slot. -/
def Owned (s : Stack) : Prop := s.set.Owns s.held s.leaving

def connect (s : Stack) (addr : SocketAddr) (accepts : Bool) : Stack :=
  let (h, c) := s.set.add { state := .closed }
  match addr with
  | .v6 .. => { s with set := c }
  | .v4 .. =>
    if !accepts then { s with set := c }
    else
      let (slot, c) := (c.set h { state := .synSent, remote := some addr }).register h
      { s with set := c, connecting := (h, slot) :: s.connecting }

def connectLook (s : Stack) (i : Nat) (timedOut : Bool) : Stack :=
  match s.connecting[i]? with
  | none => s
  | some p =>
    match s.set.get p.1 with
    | none => s
    | some e =>
      if e.state = .established then { s with connecting := s.connecting.eraseIdx i, streams := p :: s.streams }
      else if e.state = .closed || e.state = .timeWait || timedOut then
        { s with set := (s.set.unregister p.1).remove p.1, connecting := s.connecting.eraseIdx i }
      else s

def bind (s : Stack) (port : BitVec 16) (poolSize : Nat) : Stack :=
  if hp : port = 0 then s
  else
    match allocPool s.set port (max poolSize 1) [] with
    | (c, none) => { s with set := c }
    | (c, some pool) => { s with set := c, listeners := ⟨port, pool, hp⟩ :: s.listeners }

def accept (s : Stack) (i : Nat) : Stack :=
  match s.listeners[i]? with
  | none => s
  | some l =>
    let (c, pool, claimed) := tryClaimEstablished s.set l.port l.pool
    { s with set := c, listeners := s.listeners.set i { l with pool := pool }, streams := claimed.toList ++ s.streams }

def dropListener (s : Stack) (i : Nat) : Stack :=
  match s.listeners[i]? with
  | none => s
  | some l =>
    { s with
      set := l.pool.foldl (fun c p => (c.unregister p.1).remove p.1) s.set
      listeners := s.listeners.eraseIdx i }

def dropStream (s : Stack) (i : Nat) : Stack :=
  match s.streams[i]? with
  | none => s
  | some p =>
    { s with set := s.set.unregister p.1, streams := s.streams.eraseIdx i, leaving := p.1 :: s.leaving }

def dropLook (s : Stack) (i : Nat) (drained : Bool) : Stack :=
  match s.leaving[i]? with
  | none => s
  | some h =>
    match s.set.get h with
    | none => s
    | some e =>
      if !drained && e.state ≠ .closed then { s with set := s.set.set h { e with state := .closed } }
      else { s with set := s.set.remove h, leaving := s.leaving.eraseIdx i }

def step (s : Stack) : StackEvent → Stack
  | .connect addr accepts => s.connect addr accepts
  | .connectLook i timedOut => s.connectLook i timedOut
  | .bind port poolSize => s.bind port poolSize
  | .accept i => s.accept i
  | .dropListener i => s.dropListener i
  | .dropStream i => s.dropStream i
  | .dropLook i drained => s.dropLook i drained
  | .network h e => { s with set := s.set.set h e }

/-- Every `connect` goes through: the address is IPv4 and `smoltcp` takes it. -/
def Connects : StackEvent → Prop
  | .connect (.v4 ..) accepts => accepts = true
  | .connect (.v6 ..) _ => False
  | .connectLook .. | .bind .. | .accept _ | .dropListener _ | .dropStream _ | .dropLook .. | .network .. => True

section

variable {s : Stack}

theorem owned_empty : Owned {} :=
  ⟨nodup_nil, fun h => by simp [SocketSet.get, held], fun h slot => by simp [held]⟩

theorem connect_owned_iff (h : s.Owned) (addr : SocketAddr) (accepts : Bool) :
    (s.connect addr accepts).Owned ↔ Connects (.connect addr accepts) := by
  have hleak := SocketSet.not_owns_add h { state := .closed }
  cases addr with
  | v6 ip port flowinfo scopeId => exact iff_of_false hleak id
  | v4 ip port =>
    cases accepts with
    | false => exact iff_of_false hleak Bool.false_ne_true
    | true =>
      refine iff_of_true ?_ rfl
      have hreg := SocketSet.owns_set (SocketSet.owns_register h { state := .closed })
        (s.set.add { state := .closed }).1 { state := .synSent, remote := some (.v4 ip port) }
      simp only [connect, Bool.not_true, Bool.false_eq_true, if_false, SocketSet.register_set]
      refine SocketSet.owns_perm hreg ?_ (.refl _)
      unfold held
      rw [← append_assoc, ← append_assoc]
      exact perm_middle.symm

theorem connectLook_owned (h : s.Owned) (i : Nat) (timedOut : Bool) : (s.connectLook i timedOut).Owned := by
  unfold connectLook
  cases hi : s.connecting[i]? with
  | none => exact h
  | some p =>
    dsimp only
    have hconn := perm_eraseIdx hi
    cases s.set.get p.1 with
    | none => exact h
    | some e =>
      dsimp only
      split
      · refine SocketSet.owns_perm h (List.Perm.append_left _ ?_) (.refl _)
        exact (hconn.append_left s.streams).trans perm_middle
      · split
        · refine SocketSet.owns_release p.2 (SocketSet.owns_perm h ?_ (.refl _))
          unfold held
          rw [← append_assoc, ← append_assoc]
          exact (hconn.append_left _).trans perm_middle
        · exact h

theorem bind_owned (h : s.Owned) (port : BitVec 16) (poolSize : Nat) : (s.bind port poolSize).Owned := by
  unfold bind
  by_cases hp : port = 0
  · rwa [dif_pos hp]
  · rw [dif_neg hp]
    obtain ⟨c, pool, ha, hown⟩ := allocPool_owns hp (max poolSize 1) s.set [] h
    rw [ha]
    refine SocketSet.owns_perm hown ?_ (.refl _)
    simp only [held, flatMap_cons, append_assoc]
    exact .refl _

theorem held_listener {i : Nat} {l : Listener} (hi : s.listeners[i]? = some l) :
    s.held.Perm (l.pool ++ ((s.listeners.eraseIdx i).flatMap Listener.pool ++ (s.streams ++ s.connecting))) := by
  rw [← append_assoc, ← flatMap_cons]
  exact ((perm_eraseIdx hi).flatMap_right _).append_right _

theorem accept_owned (h : s.Owned) (i : Nat) : (s.accept i).Owned := by
  unfold accept
  cases hi : s.listeners[i]? with
  | none => exact h
  | some l =>
    have hclaim := tryClaimEstablished_owns l.port_ne (SocketSet.owns_perm h (held_listener hi) (.refl _))
    refine SocketSet.owns_perm hclaim ?_ (.refl _)
    have hset : ∀ l' : Listener, ((s.listeners.set i l').flatMap Listener.pool).Perm
        (l'.pool ++ (s.listeners.eraseIdx i).flatMap Listener.pool) := fun l' => by
      rw [← flatMap_cons]
      exact (set_perm hi l').flatMap_right _
    refine List.Perm.trans ?_ ((hset _).symm.append_right _)
    rw [append_assoc, append_assoc]
    exact (perm_append_comm_assoc _ _ _).append_left _

theorem dropListener_owned (h : s.Owned) (i : Nat) : (s.dropListener i).Owned := by
  unfold dropListener
  cases hi : s.listeners[i]? with
  | none => exact h
  | some l =>
    exact releaseAll_owns l.pool s.set (SocketSet.owns_perm h (held_listener hi) (.refl _))

theorem dropStream_owned (h : s.Owned) (i : Nat) : (s.dropStream i).Owned := by
  unfold dropStream
  cases hi : s.streams[i]? with
  | none => exact h
  | some p =>
    refine SocketSet.owns_unregister p.2 (SocketSet.owns_perm h ?_ (.refl _))
    refine (List.Perm.append_left _ ((perm_eraseIdx hi).append_right s.connecting)).trans ?_
    exact perm_middle

theorem dropLook_owned (h : s.Owned) (i : Nat) (drained : Bool) : (s.dropLook i drained).Owned := by
  unfold dropLook
  cases hi : s.leaving[i]? with
  | none => exact h
  | some x =>
    dsimp only
    cases s.set.get x with
    | none => exact h
    | some e =>
      dsimp only
      split
      · exact SocketSet.owns_set h x _
      · exact SocketSet.owns_remove (SocketSet.owns_perm h (.refl _) (perm_eraseIdx hi))

theorem step_owned_iff (e : StackEvent) (h : s.Owned) : (s.step e).Owned ↔ Connects e := by
  cases e with
  | connect addr accepts => exact connect_owned_iff h addr accepts
  | connectLook i timedOut => exact iff_of_true (connectLook_owned h i timedOut) trivial
  | bind port poolSize => exact iff_of_true (bind_owned h port poolSize) trivial
  | accept i => exact iff_of_true (accept_owned h i) trivial
  | dropListener i => exact iff_of_true (dropListener_owned h i) trivial
  | dropStream i => exact iff_of_true (dropStream_owned h i) trivial
  | dropLook i drained => exact iff_of_true (dropLook_owned h i drained) trivial
  | network x e => exact iff_of_true (SocketSet.owns_set h x e) trivial

end

/-- **When the sockets are owned**: throughout every run of connects, binds, accepts and drops, in any order and over
any network, every socket of the set has exactly one owner and every holder its slot, exactly when every `connect` of
the run goes through. -/
theorem socket_ownership_iff (es : List StackEvent) :
    (∀ es₁, es₁ <+: es → (run step {} es₁).Owned) ↔ Along step (fun _ e => Connects e) {} es :=
  run_always_iff (fun _ e h => step_owned_iff e h) es {} owned_empty

theorem socket_ownership_leak :
    let s := run step {} [.connect (.v6 1 443 0 0) true]
    (s.set.get 0).isSome = true ∧ s.held = [] ∧ s.leaving = [] ∧ ¬ s.Owned := by
  refine ⟨rfl, rfl, rfl, fun h => ?_⟩
  exact absurd ((h.sockets 0).1 rfl) not_mem_nil

end Stack
end TailscaleVita.Net
