import Mathlib

/-!
# Framed streams

A stream is cut into frames by a separator. `frames` hands each frame to an acceptor until one is
refused, and says what was accepted and what is left: the symbols after the last separator, or the
refusal. Reading a stream in two parts is reading it at once (`frames_append`).
-/

namespace Nomo.Lib.Framing

variable {α β ε : Type} [DecidableEq α]

/-- The accepted frames of a stream, of which a first part is known to hold no separator, and what is
left. -/
def frames (accept : List α → Except ε β) (separator : α) :
    List α → List α → List β × Except ε (List α)
  | open', [] => ([], .ok open')
  | open', symbol :: rest =>
    if symbol = separator then
      match accept open' with
      | .error refusal => ([], .error refusal)
      | .ok frame =>
        let (accepted, left) := frames accept separator [] rest
        (frame :: accepted, left)
    else frames accept separator (open' ++ [symbol]) rest

/-- Go on with a second part. -/
def andThen (first : List β × Except ε (List α)) (second : List α → List β × Except ε (List α)) :
    List β × Except ε (List α) :=
  match first with
  | (accepted, .error refusal) => (accepted, .error refusal)
  | (accepted, .ok open') => (accepted ++ (second open').1, (second open').2)

variable {accept : List α → Except ε β} {separator : α}

theorem frames_append (open' first second : List α) :
    frames accept separator open' (first ++ second) =
      andThen (frames accept separator open' first)
        fun open' => frames accept separator open' second := by
  induction first generalizing open' with
  | nil => rfl
  | cons symbol rest ih =>
    rw [List.cons_append, frames, frames]
    split_ifs with hsymbol
    · cases accept open' with
      | error refusal => rfl
      | ok frame =>
        simp only [ih]
        rcases frames accept separator [] rest with ⟨accepted, refusal | open''⟩ <;> rfl
    · exact ih _

theorem frames_of_not_mem (open' : List α) {symbols : List α} (h : separator ∉ symbols) :
    frames accept separator open' symbols = ([], .ok (open' ++ symbols)) := by
  induction symbols generalizing open' with
  | nil => simp [frames]
  | cons symbol rest ih =>
    obtain ⟨hsymbol, hrest⟩ := not_or.mp (List.mem_cons.not.mp h)
    rw [frames, if_neg (Ne.symm hsymbol), ih _ hrest, List.append_assoc, List.singleton_append]

/-- What is left was open or came in, and is no separator. -/
theorem forall_mem_of_frames {P : α → Prop} {open' symbols left : List α} {accepted : List β}
    (hopen : ∀ symbol ∈ open', P symbol)
    (hsymbols : ∀ symbol ∈ symbols, symbol ≠ separator → P symbol)
    (hframes : frames accept separator open' symbols = (accepted, .ok left)) :
    ∀ symbol ∈ left, P symbol := by
  induction symbols generalizing open' accepted with
  | nil =>
    rw [frames] at hframes
    cases hframes
    exact hopen
  | cons symbol rest ih =>
    obtain ⟨hsymbol, hrest⟩ := List.forall_mem_cons.mp hsymbols
    rw [frames] at hframes
    split_ifs at hframes with hseparator
    · cases haccept : accept open' with
      | error refusal =>
        rw [haccept] at hframes
        cases hframes
      | ok frame =>
        rw [haccept] at hframes
        cases hframed : frames accept separator [] rest with
        | mk accepted' left' =>
          rw [hframed] at hframes
          cases hframes
          exact ih (List.forall_mem_nil P) hrest hframed
    · exact ih (List.forall_mem_append.mpr ⟨hopen, List.forall_mem_singleton.mpr
        (hsymbol hseparator)⟩) hrest hframes

theorem not_mem_of_frames {open' symbols left : List α} {accepted : List β} (h : separator ∉ open')
    (hframes : frames accept separator open' symbols = (accepted, .ok left)) : separator ∉ left :=
  fun hmem => forall_mem_of_frames (fun _ hopen => ne_of_mem_of_not_mem hopen h) (fun _ _ hne => hne)
    hframes _ hmem rfl

end Nomo.Lib.Framing

/-!
## Length-prefixed parts

A sequence of texts is written as one text by writing before each part its length in a fixed number
of bytes, least significant byte first.  What is written determines the parts
(`prefixed_injective`).
-/

namespace Nomo.Lib

/-- A number in `width` bytes, least significant byte first. -/
def leBytes : ℕ → ℕ → List UInt8
  | 0, _ => []
  | width + 1, n => UInt8.ofNat n :: leBytes width (n / 256)

@[simp] theorem length_leBytes (width n : ℕ) : (leBytes width n).length = width := by
  induction width generalizing n with
  | zero => rfl
  | succ width ih => rw [leBytes, List.length_cons, ih]

theorem leBytes_injective {width m n : ℕ} (hm : m < 256 ^ width) (hn : n < 256 ^ width)
    (h : leBytes width m = leBytes width n) : m = n := by
  induction width generalizing m n with
  | zero =>
    rw [Nat.pow_zero] at hm hn
    omega
  | succ width ih =>
    rw [leBytes, leBytes, List.cons.injEq] at h
    have hlow : m % 256 = n % 256 := by simpa using congrArg UInt8.toNat h.1
    have hpow : 256 ^ (width + 1) = 256 * 256 ^ width := by ring
    have hhigh : m / 256 = n / 256 := ih (by omega) (by omega) h.2
    omega

/-- A part with its length before it. -/
def withLength (width : ℕ) (part : List UInt8) : List UInt8 := leBytes width part.length ++ part

/-- Parts with their lengths before them. -/
def prefixed (width : ℕ) (parts : List (List UInt8)) : List UInt8 := parts.flatMap (withLength width)

/-- **Parts are read back.** -/
theorem prefixed_injective {width : ℕ} {xs ys : List (List UInt8)}
    (hxs : ∀ x ∈ xs, x.length < 256 ^ width) (hys : ∀ y ∈ ys, y.length < 256 ^ width)
    (hwidth : width ≠ 0) (h : prefixed width xs = prefixed width ys) : xs = ys := by
  induction xs generalizing ys with
  | nil =>
    cases ys with
    | nil => rfl
    | cons y ys =>
      have hlength := congrArg List.length h
      simp only [prefixed, List.flatMap_nil, List.flatMap_cons, withLength, List.length_nil,
        List.length_append, length_leBytes] at hlength
      omega
  | cons x xs ih =>
    cases ys with
    | nil =>
      have hlength := congrArg List.length h
      simp only [prefixed, List.flatMap_nil, List.flatMap_cons, withLength, List.length_nil,
        List.length_append, length_leBytes] at hlength
      omega
    | cons y ys =>
      simp only [prefixed, List.flatMap_cons, withLength, List.append_assoc] at h
      obtain ⟨hlen, hparts⟩ := List.append_inj h (by simp)
      have hlen : x.length = y.length := leBytes_injective (hxs x (List.mem_cons_self ..))
        (hys y (List.mem_cons_self ..)) hlen
      obtain ⟨rfl, hrest⟩ := List.append_inj hparts hlen
      rw [ih (fun x hx => hxs x (List.mem_cons_of_mem _ hx))
        (fun y hy => hys y (List.mem_cons_of_mem _ hy)) hrest]

end Nomo.Lib
