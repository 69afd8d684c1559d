import GrpcMtk.Http.Buffer

/-!
# Reading into the caller's buffer

`hdrstr` and `url` copy a text of the parser into a buffer of their caller, byte
by byte and each byte one place further, so that the bytes written so far are
the list of what is in the buffer from its start on.  `hdrstr` checks before
each byte but the first whether there is room for it; `url` compares with `>`
where `hdrstr` has `>=`.
-/

namespace GrpcMtk.Http

open GrpcMtk.Proto

def slash : UInt8 := 47

/-- What an accessor has written to its buffer, and what it returns: the length
it stores to `*outlen`, or `none` for a null pointer. -/
structure Copied where
  written : Bytes
  outlen : Option ℕ
  deriving DecidableEq, Repr

/-- One byte is written before the rest. -/
def Copied.behind (byte : UInt8) (copied : Copied) : Copied :=
  { copied with written := byte :: copied.written }

/-- The loop of `hdrstr` over a value, of which `count` bytes are copied. -/
def copyValue (l : ℕ) : ℕ → Bytes → Copied
  | count, [] => { written := [0], outlen := some count }
  | count, byte :: rest =>
      if count + 1 ≥ l then { written := [byte], outlen := none }
      else (copyValue l (count + 1) rest).behind byte

/-- `HttpFSM::hdrstr` over the lines, each with its stored length. -/
def copyKey (key : Bytes) (l : ℕ) : List (Bytes × ℕ) → Copied
  | [] => { written := [], outlen := none }
  | (line, hl) :: rest =>
      match matchKey hl 0 key line with
      | .mismatch => copyKey key l rest
      | .tooLong => { written := [], outlen := none }
      | .found text => copyValue l 0 (text.dropWhile isBlank)

section CopyValue

variable {l : ℕ}

theorem copyValue_eq {count : ℕ} (hcount : count < l) (text : Bytes) :
    copyValue l count text =
      if count + text.length < l then
        { written := text ++ [0], outlen := some (count + text.length) }
      else { written := text.take (l - count), outlen := none } := by
  induction text generalizing count with
  | nil => rw [copyValue, List.length_nil, if_pos (by omega)]; rfl
  | cons byte rest ih =>
      rw [copyValue, List.length_cons]
      by_cases hfull : count + 1 ≥ l
      · have hlast : l - count = 1 := by omega
        rw [if_pos hfull, if_neg (by omega), hlast]
        rfl
      · obtain ⟨room, hroom⟩ : ∃ room, l - count = room + 1 :=
          ⟨l - count - 1, by omega⟩
        have hnext : l - (count + 1) = room := by omega
        rw [if_neg hfull, ih (by omega), hroom, hnext, List.take_succ_cons,
          Nat.add_assoc, Nat.add_comm 1]
        split <;> rfl

theorem length_written_copyValue {count : ℕ} (hcount : count < l)
    (text : Bytes) : count + (copyValue l count text).written.length ≤ l := by
  rw [copyValue_eq hcount]
  split
  · rw [List.length_append, List.length_singleton]
    omega
  · rw [List.length_take]
    omega

end CopyValue

theorem length_written_copyKey {key : Bytes} {l : ℕ} (hl : 0 < l)
    (lines : List (Bytes × ℕ)) :
    (copyKey key l lines).written.length ≤ l := by
  induction lines with
  | nil => exact Nat.zero_le l
  | cons line rest ih =>
      obtain ⟨line, hlength⟩ := line
      rw [copyKey]
      cases matchKey hlength 0 key line with
      | mismatch => exact ih
      | tooLong => exact Nat.zero_le l
      | found text =>
          have hlength := length_written_copyValue hl (text.dropWhile isBlank)
          rwa [Nat.zero_add] at hlength

/-! ## The request path -/

/-- What `url` has read of the memory, written to its buffer and returns. -/
structure Scan extends Copied where
  reads : List ℕ
  deriving DecidableEq, Repr

def Scan.reading (places : List ℕ) (scan : Scan) : Scan :=
  { scan with reads := places ++ scan.reads }

section Loops

variable (mP : ℕ → UInt8)

/-- The loop of `url` to the first space, with as many more bytes as `hl`
allows: the places it reads and the place of the space. -/
def skipMethod : ℕ → ℕ → List ℕ × Option ℕ
  | allowed, w =>
      if mP w = space then ([w], some w)
      else
        match allowed with
        | 0 => ([w], none)
        | allowed + 1 =>
            if mP (w + 1) = 0 then ([w, w + 1], none)
            else
              let (reads, found) := skipMethod allowed (w + 1)
              (w :: (w + 1) :: reads, found)

/-- The loop of `url` to the second space, with `room` bytes of the buffer
left of the `l` that `url` allows itself. -/
def copyPath : ℕ → ℕ → ℕ → Scan
  | room, count, w =>
      if mP w = space then
        { reads := [w], written := [0], outlen := some count }
      else
        match room with
        | 0 => { reads := [w], written := [mP w], outlen := none }
        | room + 1 =>
            if mP (w + 1) = 0 then
              { reads := [w, w + 1], written := [mP w], outlen := none }
            else
              let scan := copyPath room (count + 1) (w + 1)
              { reads := w :: (w + 1) :: scan.reads
                written := mP w :: scan.written
                outlen := scan.outlen }

end Loops

namespace HttpFSM

/-- `HttpFSM::hdrstr`, with what it writes. -/
def copyHdrstr (key : String) (l : ℕ) (fsm : HttpFSM) : Copied :=
  copyKey (ascii key) l
    (fsm.headers.map fun header => (fsm.cstr header.hd, header.hl))

/-- `HttpFSM::url`, which is called when there is a first line. -/
def url (l : ℕ) (fsm : HttpFSM) : Scan :=
  match fsm.headers with
  | [] => { reads := [], written := [], outlen := none }
  | first :: _ =>
      match skipMethod fsm.mP first.hl first.hd with
      | (reads, none) => { reads, written := [], outlen := none }
      | (reads, some w) =>
          let start := if fsm.mP (w + 1) = slash then w + 2 else w + 1
          (copyPath fsm.mP l 0 start).reading (reads ++ [w + 1])

end HttpFSM

/-! ## What the loops find -/

section Loops

variable {mP : ℕ → UInt8}

/-- The first space at or behind a place, with no NUL behind the place up to
it. -/
structure FirstSpace (mP : ℕ → UInt8) (start place : ℕ) : Prop where
  behind : start ≤ place
  space : mP place = space
  first : ∀ other, start ≤ other → other < place → mP other ≠ Http.space
  noNul : ∀ other, start < other → other < place → mP other ≠ 0

theorem skipMethod_eq_some {allowed w place : ℕ} :
    (skipMethod mP allowed w).2 = some place ↔
      FirstSpace mP w place ∧ place ≤ w + allowed := by
  have hnul : (0 : UInt8) ≠ space := by decide
  induction allowed generalizing w with
  | zero =>
      rw [skipMethod]
      split
      case isTrue hspace =>
        rw [Option.some.injEq]
        constructor
        · rintro rfl
          exact ⟨⟨le_rfl, hspace, fun _ _ _ => by omega, fun _ _ _ => by omega⟩,
            le_rfl⟩
        · rintro ⟨hfirst, hplace⟩
          have hbehind := hfirst.behind
          omega
      case isFalse hother =>
        refine iff_of_false nofun fun h => ?_
        have hbehind := h.1.behind
        obtain rfl : place = w := by omega
        exact hother h.1.space
  | succ allowed ih =>
      rw [skipMethod]
      split
      case isTrue hspace =>
        rw [Option.some.injEq]
        constructor
        · rintro rfl
          exact ⟨⟨le_rfl, hspace, fun _ _ _ => by omega, fun _ _ _ => by omega⟩,
            Nat.le_add_right _ _⟩
        · rintro ⟨hfirst, -⟩
          by_contra hne
          have hbehind := hfirst.behind
          exact hfirst.first w le_rfl (by omega) hspace
      case isFalse hother =>
        dsimp only
        split
        case isTrue hend =>
          refine iff_of_false nofun fun h => ?_
          have hbehind := h.1.behind
          have hne : place ≠ w := fun heq => hother (heq ▸ h.1.space)
          have hnext : place ≠ w + 1 := fun heq =>
            hnul (hend.symm.trans (heq ▸ h.1.space))
          exact h.1.noNul (w + 1) (by omega) (by omega) hend
        case isFalse hgo =>
          dsimp only
          refine (@ih (w + 1)).trans ?_
          constructor
          · rintro ⟨hfirst, hplace⟩
            refine ⟨⟨?_, hfirst.space, ?_, ?_⟩, by omega⟩
            · exact Nat.le_of_succ_le hfirst.behind
            · intro other hbehind hbefore
              rcases Nat.eq_or_lt_of_le hbehind with rfl | hlater
              · exact hother
              · exact hfirst.first other hlater hbefore
            · intro other hbehind hbefore
              rcases Nat.eq_or_lt_of_le hbehind with rfl | hlater
              · exact hgo
              · exact hfirst.noNul other hlater hbefore
          · rintro ⟨hfirst, hplace⟩
            have hbehind := hfirst.behind
            have hne : place ≠ w := fun heq => hother (heq ▸ hfirst.space)
            refine ⟨⟨by omega, hfirst.space, ?_, ?_⟩, by omega⟩
            · exact fun other hlater => hfirst.first other (by omega)
            · exact fun other hlater => hfirst.noNul other (by omega)

/-- `copyPath` stops inside its buffer: a space among the bytes that there is
room for, or a NUL behind one of them. -/
def StopsWithin (mP : ℕ → UInt8) (room w : ℕ) : Prop :=
  ∃ n, n < room ∧ mP (w + n) = space ∨
    0 < n ∧ n ≤ room ∧ mP (w + n) = 0

theorem length_written_copyPath (room count w : ℕ) :
    (copyPath mP room count w).written.length ≤ room ↔
      StopsWithin mP room w := by
  have hnul : (0 : UInt8) ≠ space := by decide
  induction room generalizing count w with
  | zero =>
      have hstops : ¬StopsWithin mP 0 w := by
        rintro ⟨n, ⟨hn, -⟩ | ⟨hpos, hn, -⟩⟩ <;> omega
      refine iff_of_false ?_ hstops
      rw [copyPath]
      split <;> simp
  | succ room ih =>
      rw [copyPath]
      split
      case isTrue hspace =>
        refine iff_of_true (by simp) ⟨0, .inl ⟨Nat.succ_pos room, hspace⟩⟩
      case isFalse hother =>
        dsimp only
        split
        case isTrue hend =>
          refine iff_of_true (by simp) ⟨1, .inr ⟨by omega, by omega, hend⟩⟩
        case isFalse hgo =>
          dsimp only
          rw [List.length_cons, Nat.add_le_add_iff_right]
          refine (ih (count + 1) (w + 1)).trans ?_
          constructor
          · rintro ⟨n, ⟨hn, hspace⟩ | ⟨hpos, hn, hend⟩⟩
            · exact ⟨n + 1, .inl ⟨by omega, by
                rwa [Nat.add_comm n, ← Nat.add_assoc]⟩⟩
            · exact ⟨n + 1, .inr ⟨by omega, by omega, by
                rwa [Nat.add_comm n, ← Nat.add_assoc]⟩⟩
          · rintro ⟨n, ⟨hn, hspace⟩ | ⟨hpos, hn, hend⟩⟩
            · cases n with
              | zero => exact absurd hspace hother
              | succ n =>
                  exact ⟨n, .inl ⟨by omega, by
                    rwa [Nat.add_comm n, ← Nat.add_assoc] at hspace⟩⟩
            · cases n with
              | zero => exact absurd hpos (Nat.lt_irrefl 0)
              | succ n =>
                  rw [Nat.add_comm n, ← Nat.add_assoc] at hend
                  refine ⟨n, .inr ⟨Nat.pos_of_ne_zero ?_, by omega, hend⟩⟩
                  rintro rfl
                  exact hgo hend

end Loops

/-! ## The caller's buffer -/

namespace HttpFSM

/-- The request target fits: if there is a first space that `url` finds, then
behind it, and behind one '/', there is a space among the next `l` bytes or a
NUL behind one of them. -/
def PathFits (l : ℕ) (fsm : HttpFSM) : Prop :=
  ∀ first ∈ fsm.headers.head?, ∀ place,
    FirstSpace fsm.mP first.hd place → place ≤ first.hd + first.hl →
      StopsWithin fsm.mP l
        (if fsm.mP (place + 1) = slash then place + 2 else place + 1)

theorem length_written_url (l : ℕ) (fsm : HttpFSM) :
    (fsm.url l).written.length ≤ l ↔ fsm.PathFits l := by
  rw [url, PathFits]
  cases fsm.headers with
  | nil => simp
  | cons first rest =>
      simp only [List.head?_cons, Option.mem_some_iff, forall_eq']
      have hfound := @skipMethod_eq_some fsm.mP first.hl first.hd
      rcases hskip : skipMethod fsm.mP first.hl first.hd with ⟨reads, found⟩
      rw [hskip] at hfound
      dsimp only at hfound
      cases found with
      | none =>
          refine iff_of_true (Nat.zero_le l) fun place hfirst hplace => ?_
          exact absurd (hfound.mpr ⟨hfirst, hplace⟩) nofun
      | some w =>
          refine (length_written_copyPath l 0 _).trans ?_
          constructor
          · intro hstops place hfirst hplace
            obtain rfl := Option.some.inj (hfound.mpr ⟨hfirst, hplace⟩)
            exact hstops
          · intro hfits
            obtain ⟨hfirst, hplace⟩ := hfound.mp rfl
            exact hfits w hfirst hplace

/-- Whatever the parser has received, `hdrstr` stays inside the buffer of its
caller for every key, and `url` does so exactly if the request target fits. -/
theorem accessors_in_bounds_iff (fsm : HttpFSM) {l : ℕ} (hl : 0 < l) :
    ((∀ key, (fsm.copyHdrstr key l).written.length ≤ l) ∧
        (fsm.url l).written.length ≤ l) ↔ fsm.PathFits l := by
  rw [length_written_url]
  exact and_iff_right fun key => length_written_copyKey hl _

/-- A parser that has received a request for "/abc". -/
private def requested : HttpFSM :=
  (blank.reset 512 fun _ => 0).append (ascii "GET /abc HTTP/1.1\r\n\r\n")

theorem accessors_in_bounds_iff_roomy :
    ((∀ key, (requested.copyHdrstr key 256).written.length ≤ 256) ∧
        (requested.url 256).written.length ≤ 256) ↔ requested.PathFits 256 :=
  accessors_in_bounds_iff requested (by decide)

/-- The target of as many bytes as the buffer has is written with its NUL
behind the buffer. -/
theorem accessors_in_bounds_iff_fails :
    requested.headers ≠ [] ∧
      ¬((∀ key, (requested.copyHdrstr key 3).written.length ≤ 3) ∧
        (requested.url 3).written.length ≤ 3) := by
  have hheader : requested.headers.head? = some ⟨0, 17⟩ := by decide +kernel
  have hslash : requested.mP 4 = slash := by decide +kernel
  have hbytes : ∀ place < 9, requested.mP place ≠ 0 ∧
      (requested.mP place = space ↔ place = 3 ∨ place = 8) := by
    decide +kernel
  constructor
  · intro hnone
    rw [hnone] at hheader
    contradiction
  · rintro ⟨-, hfits⟩
    have hfirst : FirstSpace requested.mP 0 3 := by
      refine ⟨Nat.zero_le 3, (hbytes 3 (by decide)).2.mpr (.inl rfl), ?_, ?_⟩
      · intro other _ hother hspace
        have hplace := (hbytes other (by omega)).2.mp hspace
        omega
      · exact fun other _ hother => (hbytes other (by omega)).1
    have hstops := (length_written_url 3 requested).mp hfits ⟨0, 17⟩ hheader 3
      hfirst (by decide)
    rw [if_pos hslash] at hstops
    obtain ⟨n, ⟨hn, hspace⟩ | ⟨-, hn, hend⟩⟩ := hstops
    · have hplace := (hbytes (3 + 2 + n) (by omega)).2.mp hspace
      omega
    · exact (hbytes (3 + 2 + n) (by omega)).1 hend

end HttpFSM

end GrpcMtk.Http
