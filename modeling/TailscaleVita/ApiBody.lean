import TailscaleVita.ApiRequest
/-!
# ApiBody — how much of a stream a request takes (`localapi/http.rs`)

What `read_request` accepts has the body its head declares, taken off the stream behind the blank line. The limit is
checked against a sum of two lengths, one of them the client's, and that sum may wrap in a `usize`.
-/
namespace TailscaleVita.Api

open List
open Noise (find_append find_le)

variable {parser : Httparse} {fails : Bool} {as as' : List Arrival}

/-- A request that declares a body: what was read with its head, where the body begins in it, and how long it is to
be. -/
def Declared (parser : Httparse) (fails : Bool) (as : List Arrival) (buf : Bytes) (bodyStart n : Nat) : Prop :=
  ∃ headerEnd rest req, readUntilHead fails maxRequestBytes [] as = (.ok (buf, headerEnd), rest) ∧
    bodyStart = headerEnd + 4 ∧ parseRequest parser (buf.take bodyStart) = .ok (req, n)

theorem readRest_ok : ∀ {fuel remaining : Nat} {body body' : Bytes} {as as' : List Arrival}, remaining ≤ fuel →
    readRest fails fuel remaining body as = (.ok body', as') →
      body' ++ unread as' = body ++ unread as ∧ body'.length = body.length + remaining
  | 0, remaining, _, _, _, _, hfuel, h => by
    cases h
    exact ⟨rfl, by omega⟩
  | fuel + 1, remaining, body, body', as, as', hfuel, h => by
    unfold readRest at h
    split at h
    next hzero =>
      cases h
      exact ⟨rfl, by omega⟩
    next hmore =>
      have hrecv := @recv_spec (min 512 remaining) (by omega) as
      generalize recv (min 512 remaining) as = r at hrecv h
      cases hrecv with
      | eof | timedOut as => cases h
      | @got _ as1 b bs hn hu hw ht =>
        have hlen : (b :: bs).length = bs.length + 1 := length_cons
        obtain ⟨hbytes, hall⟩ := readRest_ok (by omega) h
        rw [length_append] at hall
        exact ⟨by rw [hbytes, hu, append_assoc], by omega⟩

variable {bodyStart n : Nat}

theorem readBody_ok {body body' : Bytes} (h : readBody fails bodyStart n body as = (.ok body', as')) :
    body' = (body ++ unread as).take n ∧ body'.length = n := by
  unfold readBody at h
  split at h
  next hmore =>
    split at h
    · cases h
    · obtain ⟨hbytes, hlen⟩ := readRest_ok (Nat.le_refl _) h
      have hn : body'.length = n := by omega
      rw [← hbytes, ← hn, take_left]
      exact ⟨rfl, rfl⟩
  next hnot =>
    split at h
    next hless =>
      cases h
      rw [take_append_of_le_length (by omega), length_take]
      exact ⟨rfl, by omega⟩
    · cases h
      have hn : body.length = n := by omega
      rw [← hn, take_left]
      exact ⟨rfl, rfl⟩

theorem Declared.stream {buf : Bytes} (h : Declared parser fails as buf bodyStart n) :
    bodyStart ≤ buf.length ∧ findCrlfcrlf (unread as) = some (bodyStart - 4) ∧ buf <+: unread as := by
  obtain ⟨headerEnd, rest, req, hread, rfl, -⟩ := h
  obtain ⟨hbytes, hfound⟩ := readUntilHead_ok fails rfl hread
  rw [nil_append] at hbytes
  refine ⟨find_le hfound, ?_, hbytes ▸ prefix_append buf (unread rest)⟩
  rw [← hbytes]
  exact find_append _ hfound

theorem readRequest_body {req : Request} (h : readRequest parser fails as = (.ok req, as')) :
    ∃ buf bodyStart n, Declared parser fails as buf bodyStart n ∧
      req.body = ((unread as).drop bodyStart).take n ∧ req.body.length = n := by
  unfold readRequest at h
  split at h
  · cases h
  rename_i buf headerEnd as1 hread
  split at h
  · cases h
  rename_i r n hparse
  split at h
  · cases h
  rename_i body as2 hbody
  cases h
  have hdeclared : Declared parser fails as buf (headerEnd + 4) n := ⟨headerEnd, as1, r, hread, rfl, hparse⟩
  obtain ⟨hbytes, -⟩ := readUntilHead_ok fails rfl hread
  rw [nil_append] at hbytes
  obtain ⟨htake, hlen⟩ := readBody_ok hbody
  refine ⟨buf, headerEnd + 4, n, hdeclared, ?_, hlen⟩
  rw [htake, ← hbytes, drop_append_of_le_length hdeclared.stream.1]

theorem readRequest_declared {buf : Bytes} (h : Declared parser fails as buf bodyStart n)
    (hmore : buf.length - bodyStart < n) (hlarge : maxRequestBytes < usizeAdd bodyStart n) :
    (readRequest parser fails as).1 = .error .tooLarge := by
  obtain ⟨headerEnd, rest, req, hread, rfl, hparse⟩ := h
  unfold readRequest
  rw [hread]
  simp only [hparse]
  unfold readBody
  rw [length_drop, if_pos hmore, if_pos hlarge]

variable (parser fails as)

/-- **The bound on a request.** Of any stream, `read_request` takes only slices that are there, refuses what is too
large and not there yet, and accepts only the body that was declared, exactly when no length declared for a body yet to
come is so large that the sum of the lengths wraps. -/
theorem request_bound_iff :
    ((∀ buf bodyStart n, Declared parser fails as buf bodyStart n → bodyStart ≤ buf.length ∧
        (buf.length - bodyStart < n → usizeAdd bodyStart n = bodyStart + n ∧
          (maxRequestBytes < bodyStart + n → (readRequest parser fails as).1 = .error .tooLarge))) ∧
      ∀ req rest, readRequest parser fails as = (.ok req, rest) →
        ∃ buf bodyStart n, Declared parser fails as buf bodyStart n ∧
          findCrlfcrlf (unread as) = some (bodyStart - 4) ∧ req.body = ((unread as).drop bodyStart).take n ∧
          req.body.length = n) ↔
    ∀ buf bodyStart n, Declared parser fails as buf bodyStart n → buf.length - bodyStart < n →
      bodyStart + n < 2 ^ 32 := by
  constructor
  · rintro ⟨hbound, -⟩ buf bodyStart n hdeclared hmore
    obtain ⟨hsum, -⟩ := (hbound buf bodyStart n hdeclared).2 hmore
    rw [← hsum]
    exact Nat.mod_lt _ (by decide)
  · intro hfits
    refine ⟨fun buf bodyStart n hdeclared => ⟨hdeclared.stream.1, fun hmore => ?_⟩, fun req rest h => ?_⟩
    · have hsum : usizeAdd bodyStart n = bodyStart + n := Nat.mod_eq_of_lt (hfits buf bodyStart n hdeclared hmore)
      exact ⟨hsum, fun hlarge => readRequest_declared hdeclared hmore (by rwa [hsum])⟩
    · obtain ⟨buf, bodyStart, n, hdeclared, hbody, hlen⟩ := readRequest_body h
      exact ⟨buf, bodyStart, n, hdeclared, hdeclared.stream.2.1, hbody, hlen⟩

def fourGigabytes : List Arrival :=
  [.data 80 (Peer.ascii "OST / HTTP/1.1\r\nContent-Length: 4294967295\r\n\r\n")]

theorem request_bound_wraps :
    (readRequest lineReader false fourGigabytes).1 = .error (.badRequest "eof before body end") := by
  decide +kernel

end TailscaleVita.Api
