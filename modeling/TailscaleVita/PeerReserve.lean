import TailscaleVita.Exchange
import TailscaleVita.PeerPut
/-!
# PeerReserve — the bytes in flight (`ts-peerapi/src/handler.rs`)

All uploads share one counter of the bytes that they have announced. `reserve_in_flight` adds to it in a loop of
compare-and-exchange, and the reservation takes the same number off again when it is dropped. Here each access to the
counter is a section of its own; `PeerPut` takes the whole loop for one section, and this module says why it may.
-/
namespace TailscaleVita.Peer

def checkedAdd (a b : BitVec 64) : Option (BitVec 64) := if a.toNat + b.toNat < 2 ^ 64 then some (a + b) else none

def nextInFlight (maxSize bytes current : BitVec 64) : Option (BitVec 64) :=
  match checkedAdd current bytes with
  | none => none
  | some next => if maxSize < next then none else some next

inductive Upload (maxSize : BitVec 64) where
  | reserving (bytes : BitVec 64) (x : Exchange (nextInFlight maxSize bytes))
  | reserved (bytes : BitVec 64)
  | refused (bytes : BitVec 64)
  | released (bytes : BitVec 64)

def Upload.access {maxSize : BitVec 64} (inFlight : BitVec 64) (spurious : Bool) :
    Upload maxSize → BitVec 64 × Upload maxSize
  | .reserving bytes x =>
    match x.access inFlight spurious with
    | (inFlight, .again x) => (inFlight, .reserving bytes x)
    | (inFlight, .replaced) => (inFlight, .reserved bytes)
    | (inFlight, .refused) => (inFlight, .refused bytes)
  | .reserved bytes => (inFlight - bytes, .released bytes)
  | .refused bytes => (inFlight, .refused bytes)
  | .released bytes => (inFlight, .released bytes)

def uploadThreads (maxSize : BitVec 64) : Threads (BitVec 64) (Upload maxSize) Empty (BitVec 64) Bool where
  call _ inFlight bytes := (inFlight, some (.reserving bytes .loading), [])
  resume _ _ inFlight upload spurious :=
    ((upload.access inFlight spurious).1, (upload.access inFlight spurious).2, [])

abbrev UploadWorld (maxSize : BitVec 64) := World (BitVec 64) (Upload maxSize) Empty

abbrev UploadEvent := WorldEvent (BitVec 64) Bool

def uploadStep {maxSize : BitVec 64} (w : UploadWorld maxSize) (e : UploadEvent) : UploadWorld maxSize :=
  w.step (uploadThreads maxSize) e

def UploadWorld.new (maxSize : BitVec 64) : UploadWorld maxSize := { shared := 0 }

def Upload.held {maxSize : BitVec 64} : Upload maxSize → Nat
  | .reserved bytes => bytes.toNat
  | .reserving _ _ | .refused _ | .released _ => 0

def UploadWorld.live {maxSize : BitVec 64} (w : UploadWorld maxSize) : Nat := (w.tasks.map Upload.held).sum

structure Accounted {maxSize : BitVec 64} (w : UploadWorld maxSize) : Prop where
  sum : w.shared.toNat = w.live
  room : w.live ≤ maxSize.toNat

section

variable {maxSize : BitVec 64}

theorem nextInFlight_eq_some {bytes current next : BitVec 64} : nextInFlight maxSize bytes current = some next ↔
    next.toNat = current.toNat + bytes.toNat ∧ next.toNat ≤ maxSize.toNat := by
  unfold nextInFlight checkedAdd
  by_cases hsum : current.toNat + bytes.toNat < 2 ^ 64
  · have hadd : (current + bytes).toNat = current.toNat + bytes.toNat := by
      rw [BitVec.toNat_add, Nat.mod_eq_of_lt hsum]
    rw [if_pos hsum]
    simp only [BitVec.lt_def, Option.ite_none_left_eq_some, Option.some.injEq, Nat.not_lt]
    constructor
    · rintro ⟨hroom, rfl⟩
      exact ⟨hadd, hroom⟩
    · rintro ⟨heq, hroom⟩
      exact ⟨by omega, BitVec.eq_of_toNat_eq (hadd.trans heq.symm)⟩
  · rw [if_neg hsum]
    simp only [reduceCtorEq, false_iff]
    omega

theorem nextInFlight_eq_none {bytes current : BitVec 64} :
    nextInFlight maxSize bytes current = none ↔ maxSize.toNat < current.toNat + bytes.toNat := by
  unfold nextInFlight checkedAdd
  by_cases hsum : current.toNat + bytes.toNat < 2 ^ 64
  · rw [if_pos hsum]
    simp only [BitVec.lt_def, BitVec.toNat_add, Nat.mod_eq_of_lt hsum, ite_eq_left_iff, reduceCtorEq, imp_false,
      not_not]
  · rw [if_neg hsum]
    simp only [true_iff]
    omega

inductive Accessed (inFlight : BitVec 64) : Upload maxSize → BitVec 64 × Upload maxSize → Prop where
  | again {bytes x x'} : Accessed inFlight (.reserving bytes x) (inFlight, .reserving bytes x')
  | reserved {bytes x next} (h : nextInFlight maxSize bytes inFlight = some next) :
      Accessed inFlight (.reserving bytes x) (next, .reserved bytes)
  | refused {bytes x} (h : nextInFlight maxSize bytes inFlight = none) :
      Accessed inFlight (.reserving bytes x) (inFlight, .refused bytes)
  | released {bytes} : Accessed inFlight (.reserved bytes) (inFlight - bytes, .released bytes)
  | ended {upload} (h : upload.held = 0) (hno : ∀ bytes x, upload ≠ .reserving bytes x) :
      Accessed inFlight upload (inFlight, upload)

theorem accessed (inFlight : BitVec 64) (spurious : Bool) (upload : Upload maxSize) :
    Accessed inFlight upload (upload.access inFlight spurious) := by
  cases upload with
  | reserving bytes x =>
    rcases x.access_cases inFlight spurious with ⟨x', h⟩ | ⟨next, hnext, h⟩ | ⟨hnone, h⟩
    · simp only [Upload.access, h]
      exact .again
    · simp only [Upload.access, h]
      exact .reserved hnext
    · simp only [Upload.access, h]
      exact .refused hnone
  | reserved bytes => exact .released
  | refused bytes | released bytes => exact .ended rfl nofun

/-- **The loop is atomic**: each access leaves the counter alone and goes on, whatever the accesses of others did before
it, or is the whole of `reserveInFlight` at that moment. -/
theorem access_atomic {bytes : BitVec 64} (x : Exchange (nextInFlight maxSize bytes)) (inFlight : BitVec 64)
    (spurious : Bool) (api : PeerApi) :
    let s : PeerApi := { api with inFlight := inFlight.toNat, maxSize := maxSize.toNat }
    (∃ x', (Upload.reserving bytes x).access inFlight spurious = (inFlight, .reserving bytes x')) ∨
    (∃ next, (Upload.reserving bytes x).access inFlight spurious = (next, .reserved bytes) ∧
      s.reserveInFlight bytes.toNat = some { s with inFlight := next.toNat }) ∨
    ((Upload.reserving bytes x).access inFlight spurious = (inFlight, .refused bytes) ∧
      s.reserveInFlight bytes.toNat = none) := by
  intro s
  have haccessed := accessed inFlight spurious (Upload.reserving bytes x)
  generalize (Upload.reserving bytes x).access inFlight spurious = r at haccessed ⊢
  unfold PeerApi.reserveInFlight
  simp only [s]
  cases haccessed with
  | @again _ _ x' => exact .inl ⟨x', rfl⟩
  | @reserved _ _ next h =>
    obtain ⟨hsum, hroom⟩ := nextInFlight_eq_some.1 h
    refine .inr (.inl ⟨next, rfl, ?_⟩)
    rw [if_neg (by omega), hsum]
  | refused h =>
    refine .inr (.inr ⟨rfl, if_pos (.inr (nextInFlight_eq_none.1 h))⟩)
  | ended _ hno => exact absurd rfl (hno bytes x)

variable {w : UploadWorld maxSize} {id : Nat}

theorem held_le_live {upload : Upload maxSize} (h : w.tasks[id]? = some upload) : upload.held ≤ w.live := by
  have hset := sum_map_set Upload.held upload (.released 0) w.tasks id h
  have hnothing : (Upload.released 0 : Upload maxSize).held = 0 := rfl
  unfold UploadWorld.live
  omega

theorem Accessed.accounted (h : Accounted w) {upload : Upload maxSize}
    (hid : w.tasks[id]? = some upload) {r : BitVec 64 × Upload maxSize} (hr : Accessed w.shared upload r)
    (log : List Empty) : Accounted { w with shared := r.1, tasks := w.tasks.set id r.2, log } := by
  obtain ⟨hsum, hroom⟩ := h
  have hset := sum_map_set Upload.held upload r.2 w.tasks id hid
  have hheld := held_le_live hid
  cases hr with
  | again =>
    have hlive : ((w.tasks.set id _).map Upload.held).sum = w.live := hset
    exact ⟨hsum.trans hlive.symm, hlive.trans_le hroom⟩
  | @reserved bytes x next hnext =>
    obtain ⟨hadd, hfits⟩ := nextInFlight_eq_some.1 hnext
    have hlive : ((w.tasks.set id (.reserved bytes)).map Upload.held).sum = w.live + bytes.toNat := hset
    have hnow : next.toNat = w.live + bytes.toNat := by rw [hadd, hsum]
    exact ⟨hnow.trans hlive.symm, by rw [UploadWorld.live, hlive, ← hnow]; exact hfits⟩
  | refused hnone =>
    have hlive : ((w.tasks.set id _).map Upload.held).sum = w.live := hset
    exact ⟨hsum.trans hlive.symm, hlive.trans_le hroom⟩
  | @released bytes =>
    -- what is taken off is part of the sum
    have hlive : ((w.tasks.set id (.released bytes)).map Upload.held).sum + bytes.toNat = w.live := hset
    have hle : bytes.toNat ≤ w.shared.toNat := by rw [hsum]; exact hheld
    have hsub : (w.shared - bytes).toNat = w.shared.toNat - bytes.toNat := BitVec.toNat_sub_of_le hle
    refine ⟨?_, ?_⟩
    · show (w.shared - bytes).toNat = ((w.tasks.set id (.released bytes)).map Upload.held).sum
      omega
    · show ((w.tasks.set id (.released bytes)).map Upload.held).sum ≤ maxSize.toNat
      omega
  | ended hnothing =>
    have hlive : ((w.tasks.set id upload).map Upload.held).sum = w.live := Nat.add_right_cancel hset
    exact ⟨hsum.trans hlive.symm, hlive.trans_le hroom⟩

theorem accounted_step (w : UploadWorld maxSize) (e : UploadEvent) (h : Accounted w) : Accounted (uploadStep w e) := by
  unfold uploadStep
  rcases w.step_cases (uploadThreads maxSize) e with ⟨d, hd⟩ | ⟨bytes, -, hr⟩ | ⟨id, upload, spurious, -, hid, hr⟩
  · rw [hd]
    exact ⟨h.sum, h.room⟩
  · rw [hr]
    have hlive : ((w.tasks ++ [Upload.reserving bytes .loading]).map Upload.held).sum = w.live := by
      rw [List.map_append, List.sum_append]
      exact Nat.add_zero _
    exact ⟨h.sum.trans hlive.symm, hlive.trans_le h.room⟩
  · rw [hr]
    exact (accessed w.shared spurious upload).accounted h hid _

theorem accounted_run (es : List UploadEvent) : Accounted (run uploadStep (UploadWorld.new maxSize) es) :=
  run_keeps Accounted accounted_step es _ ⟨rfl, Nat.zero_le _⟩

theorem refused_step {e : UploadEvent} {bytes : BitVec 64} (h : Accounted w)
    (hbefore : w.tasks[id]? ≠ some (.refused bytes)) (hafter : (uploadStep w e).tasks[id]? = some (.refused bytes)) :
    (∃ x, w.tasks[id]? = some (.reserving bytes x)) ∧ maxSize.toNat < w.live + bytes.toNat := by
  unfold uploadStep at hafter
  rcases w.step_cases (uploadThreads maxSize) e with ⟨d, hd⟩ | ⟨bytes', -, hr⟩ | ⟨id', upload, spurious, -, hid, hr⟩
  · rw [hd] at hafter
    exact absurd hafter hbefore
  · rw [hr] at hafter
    rw [List.getElem?_append] at hafter
    split at hafter
    · exact absurd hafter hbefore
    · cases List.mem_singleton.1 (List.mem_of_getElem? hafter)
  · rw [hr] at hafter
    change (w.tasks.set id' (upload.access w.shared spurious).2)[id]? = _ at hafter
    have haccessed := accessed w.shared spurious upload
    generalize upload.access w.shared spurious = r at haccessed hafter
    by_cases he : id' = id
    · subst he
      rw [List.getElem?_set_self (List.getElem?_eq_some_iff.1 hid).1, Option.some.injEq] at hafter
      cases haccessed with
      | again | reserved _ | released => cases hafter
      | @refused bytes' x hnone =>
        cases hafter
        rw [← h.sum]
        exact ⟨⟨x, hid⟩, nextInFlight_eq_none.1 hnone⟩
      | ended =>
        cases hafter
        exact absurd hid hbefore
    · rw [List.getElem?_set_ne he] at hafter
      exact absurd hafter hbefore

end

/-- **The account of the bytes in flight.** Over every interleaving of any number of uploads, with exchanges that fail
for no reason anywhere: the counter is the sum of the live reservations; it is never over the limit; no reservation
takes off more than there is; and an upload is refused only if, at a moment during its call, the live reservations and
the bytes that it asked for were together over the limit. -/
theorem in_flight_accounted (maxSize : BitVec 64) (es : List UploadEvent) :
    let w : UploadWorld maxSize := run uploadStep (UploadWorld.new maxSize) es
    w.shared.toNat = w.live ∧ w.live ≤ maxSize.toNat ∧
    (∀ (id : Nat) (bytes : BitVec 64), w.tasks[id]? = some (.reserved bytes) → bytes ≤ w.shared) ∧
    ∀ (id : Nat) (bytes : BitVec 64), w.tasks[id]? = some (.refused bytes) →
      ∃ es₁ es₂, es = es₁ ++ es₂ ∧
        let w₁ : UploadWorld maxSize := run uploadStep (UploadWorld.new maxSize) es₁
        (∃ x, w₁.tasks[id]? = some (.reserving bytes x)) ∧ maxSize.toNat < w₁.live + bytes.toNat := by
  intro w
  have haccounted : Accounted w := accounted_run es
  refine ⟨haccounted.sum, haccounted.room, fun id bytes hid => ?_, fun id bytes hid => ?_⟩
  · rw [BitVec.le_def, haccounted.sum]
    exact held_le_live hid
  · obtain ⟨es₁, e, es₂, hes, hbefore, hafter⟩ :=
      run_comes_about (fun w : UploadWorld maxSize => w.tasks[id]? = some (.refused bytes)) es _ (by nofun) hid
    exact ⟨es₁, e :: es₂, hes, refused_step (accounted_run es₁) hbefore hafter⟩

-- both load 0 and the first one is faster: the other one's exchange fails, and once more for no reason
example : (run uploadStep (UploadWorld.new 10) [.call 6, .call 4, .resume 0 false, .resume 1 false, .resume 0 false,
    .resume 1 false, .resume 1 true, .resume 1 false]).shared = 10 := by decide

end TailscaleVita.Peer
