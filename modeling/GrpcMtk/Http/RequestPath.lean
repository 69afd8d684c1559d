import GrpcMtk.Http.Lookup
import GrpcMtk.Http.RequestLine

/-!
# The request path

`url` looks for the two spaces of the first line byte by byte.  It tests each
byte for the end of the line only after it has stepped onto it: the byte it
starts at is taken whatever it is.  A line that ends behind its first space is
therefore left behind, and a target as long as the buffer is taken to fit.
-/

namespace GrpcMtk.Http

open GrpcMtk.Proto

/-! ## The path of a line -/

/-- The line up to its first space. -/
def method (line : Bytes) : Bytes := line.takeWhile fun byte => byte ≠ space

/-- The line behind its first space. -/
def behindMethod (line : Bytes) : Bytes :=
  (line.dropWhile fun byte => byte ≠ space).tail

def withoutSlash : Bytes → Bytes
  | [] => []
  | byte :: rest => if byte = slash then rest else byte :: rest

/-- What stands between the first and the second space, with one leading '/'
removed. -/
def target (line : Bytes) : Option Bytes :=
  if space ∈ behindMethod line then
    some (withoutSlash
      ((behindMethod line).takeWhile fun byte => byte ≠ space))
  else none

/-- What `url` is to return. -/
def path (l : ℕ) (line : Bytes) : Option Bytes :=
  (target line).filter fun text => text.length < l

namespace HttpFSM

/-- `url` returns the path of the first line and reads nothing of the lines
behind it. -/
structure ReadsPath (l : ℕ) (line : Bytes) (fsm : HttpFSM) : Prop where
  returns : (fsm.url l).toCopied.Returns (path l line)
  reads : ∀ place ∈ (fsm.url l).reads, ∀ header ∈ fsm.headers.tail,
    place < header.hd

end HttpFSM

/-- The first space is within the stored length of the line, and there is no
NUL on the way to it but perhaps the first byte. -/
def MethodRead (line : Bytes) : Prop :=
  (method line).length ≤ line.length % 2 ^ 16 ∧ 0 ∉ (method line).tail

/-- Nor is there one on the way to the second space. -/
def Taken (line text : Bytes) : Prop := MethodRead line ∧ 0 ∉ text.tail

instance (line : Bytes) : Decidable (MethodRead line) :=
  inferInstanceAs (Decidable (_ ∧ _))

instance (line text : Bytes) : Decidable (Taken line text) :=
  inferInstanceAs (Decidable (_ ∧ _))

/-- A target that fits has no NUL in it and one of the buffer's length has, and
a line that ends at its first space, or at the '/' behind it, is not followed
directly by another line. -/
structure PathReadable (l : ℕ) (line : Bytes) (fsm : HttpFSM) : Prop where
  fits : ∀ text ∈ target line, text.length < l → Taken line text
  full : ∀ text ∈ target line, text.length = l → ¬Taken line text
  ended : space ∈ line → withoutSlash (behindMethod line) = [] →
    MethodRead line → 0 < l →
      ∀ header ∈ fsm.headers.tail, header.hd ≠ line.length + 1

section Lines

variable {line text : Bytes}

/-- A line is divided at its first space. -/
theorem method_append (hspace : space ∈ line) :
    method line ++ space :: behindMethod line = line := by
  unfold method behindMethod
  induction line with
  | nil => exact absurd hspace List.not_mem_nil
  | cons byte rest ih =>
      by_cases hbyte : byte = space
      · simp [hbyte]
      · have hlater := (List.mem_cons.mp hspace).resolve_left (Ne.symm hbyte)
        simp only [List.takeWhile_cons, List.dropWhile_cons, hbyte, ne_eq,
          not_false_eq_true, decide_true, if_true, List.cons_append]
        exact congrArg (byte :: ·) (ih hlater)

theorem space_not_mem_method : space ∉ method line := fun hmem => by
  have hother := List.mem_takeWhile_imp hmem
  simp at hother

theorem behindMethod_of_not_mem (hspace : space ∉ line) :
    behindMethod line = [] := by
  rw [behindMethod, List.dropWhile_eq_nil_iff.mpr]
  · rfl
  · exact fun byte hbyte => decide_eq_true fun heq => hspace (heq ▸ hbyte)

theorem withoutSlash_append (hspace : space ∈ text) :
    ∃ more, withoutSlash text =
      withoutSlash (method text) ++ space :: more := by
  have hsplit := method_append hspace
  generalize method text = word at hsplit ⊢
  generalize behindMethod text = more at hsplit
  subst hsplit
  refine ⟨more, ?_⟩
  cases word with
  | nil =>
      rw [List.nil_append, withoutSlash, withoutSlash, List.nil_append]
      exact if_neg (by decide)
  | cons byte rest =>
      rw [List.cons_append, withoutSlash, withoutSlash]
      split
      · rfl
      · rw [List.cons_append]

theorem mem_of_mem_withoutSlash {byte : UInt8}
    (hmem : byte ∈ withoutSlash text) : byte ∈ text := by
  cases text with
  | nil => exact hmem
  | cons first rest =>
      rw [withoutSlash] at hmem
      split at hmem
      · exact List.mem_cons_of_mem _ hmem
      · exact hmem

end Lines

/-! ## The loops over a line -/

section Loops

variable {mP : ℕ → UInt8} {w : ℕ} {text : Bytes}

theorem zero_not_mem_iff :
    0 ∉ text ↔ text.head? ≠ some 0 ∧ 0 ∉ text.tail := by
  cases text with
  | nil => simp
  | cons byte rest => simp [eq_comm]

/-- A loop stops at the next byte if it is NUL. -/
theorem Stands.next_eq_zero {last : UInt8} (hlast : last ≠ 0)
    (hstands : Stands mP w (text ++ [last])) :
    mP w = 0 ↔ text.head? = some 0 := by
  cases text with
  | nil => simpa [hstands.1] using hlast
  | cons byte rest => simp [hstands.1]

theorem skipMethod_reads (allowed w : ℕ) :
    ∀ place ∈ (skipMethod mP allowed w).1, place ≤ w + allowed := by
  induction allowed generalizing w with
  | zero =>
      rw [skipMethod]
      split <;> simp
  | succ allowed ih =>
      rw [skipMethod]
      split
      · simp
      · dsimp only
        split
        · simp
        · have hlater := ih (w + 1)
          simp only [List.forall_mem_cons]
          refine ⟨by omega, by omega, fun place hplace => ?_⟩
          have hbound := hlater place hplace
          omega

/-- What the first loop makes of a text up to a space. -/
theorem skipMethod_of_space (htext : space ∉ text)
    (hstands : Stands mP w (text ++ [space])) (allowed : ℕ) :
    (text.length ≤ allowed ∧ 0 ∉ text.tail →
      (skipMethod mP allowed w).2 = some (w + text.length)) ∧
      (¬(text.length ≤ allowed ∧ 0 ∉ text.tail) →
        (skipMethod mP allowed w).2 = none) := by
  induction text generalizing allowed w with
  | nil => cases allowed <;> simp [skipMethod, hstands.1]
  | cons byte rest ih =>
      rw [List.mem_cons, not_or] at htext
      have hbyte : mP w ≠ space := fun heq =>
        htext.1 (heq.symm.trans hstands.1)
      cases allowed with
      | zero =>
          rw [skipMethod, if_neg hbyte]
          simp
      | succ allowed =>
          have hnext := hstands.2.next_eq_zero (by decide)
          obtain ⟨hfound, hnone⟩ := ih htext.2 hstands.2 allowed
          rw [skipMethod, if_neg hbyte]
          dsimp only
          rw [List.tail_cons, List.length_cons, Nat.add_le_add_iff_right,
            zero_not_mem_iff]
          by_cases hzero : rest.head? = some 0
          · rw [if_pos (hnext.mpr hzero)]
            exact ⟨fun h => absurd hzero h.2.1, fun _ => rfl⟩
          · rw [if_neg (mt hnext.mp hzero)]
            dsimp only
            refine ⟨fun h => ?_, fun h => hnone fun h' =>
              h ⟨h'.1, hzero, h'.2⟩⟩
            rw [hfound ⟨h.1, h.2.2⟩, Nat.add_assoc, Nat.add_comm 1]

theorem skipMethod_of_none (htext : space ∉ text)
    (hstands : Stands mP w (text ++ [0])) {allowed : ℕ}
    (hallowed : allowed ≤ text.length) :
    (skipMethod mP allowed w).2 = none := by
  induction text generalizing allowed w with
  | nil =>
      have hnul : mP w ≠ space := by
        rw [hstands.1]
        decide
      obtain rfl : allowed = 0 := Nat.le_zero.mp hallowed
      rw [skipMethod, if_neg hnul]
  | cons byte rest ih =>
      rw [List.mem_cons, not_or] at htext
      have hbyte : mP w ≠ space := fun heq =>
        htext.1 (heq.symm.trans hstands.1)
      cases allowed with
      | zero => rw [skipMethod, if_neg hbyte]
      | succ allowed =>
          rw [skipMethod, if_neg hbyte]
          dsimp only
          split
          · rfl
          · exact ih htext.2 hstands.2 (Nat.le_of_succ_le_succ hallowed)

/-- The first loop stays in its line. -/
theorem reads_method (mP : ℕ → UInt8) (line : Bytes) :
    ∀ place ∈ (skipMethod mP (line.length % 2 ^ 16) 0).1,
      place ≤ line.length := by
  intro place hplace
  have hbound := skipMethod_reads _ _ place hplace
  have hmod := Nat.mod_le line.length (2 ^ 16)
  omega

/-- What the second loop makes of a text up to a space. -/
theorem copyPath_of_space (htext : space ∉ text)
    (hstands : Stands mP w (text ++ [space])) (room count : ℕ) :
    (text.length ≤ room ∧ 0 ∉ text.tail →
      (copyPath mP room count w).toCopied =
        { written := text ++ [0], outlen := some (count + text.length) }) ∧
      (¬(text.length ≤ room ∧ 0 ∉ text.tail) →
        (copyPath mP room count w).outlen = none) ∧
      ∀ place ∈ (copyPath mP room count w).reads,
        place ≤ w + text.length := by
  induction text generalizing room count w with
  | nil => cases room <;> simp [copyPath, hstands.1]
  | cons byte rest ih =>
      rw [List.mem_cons, not_or] at htext
      have hbyte : mP w ≠ space := fun heq =>
        htext.1 (heq.symm.trans hstands.1)
      cases room with
      | zero =>
          rw [copyPath, if_neg hbyte]
          simp
      | succ room =>
          rw [copyPath, if_neg hbyte]
          have hnext := hstands.2.next_eq_zero (by decide)
          obtain ⟨htaken, hrefused, hreads⟩ :=
            ih htext.2 hstands.2 room (count + 1)
          dsimp only
          rw [List.tail_cons, List.length_cons, Nat.add_le_add_iff_right,
            zero_not_mem_iff]
          by_cases hzero : rest.head? = some 0
          · rw [if_pos (hnext.mpr hzero)]
            refine ⟨fun h => absurd hzero h.2.1, fun _ => rfl, ?_⟩
            simp only [List.forall_mem_cons]
            exact ⟨by omega, by omega, fun _ h => absurd h List.not_mem_nil⟩
          · rw [if_neg (mt hnext.mp hzero)]
            dsimp only
            refine ⟨fun h => ?_, fun h => hrefused fun h' =>
              h ⟨h'.1, hzero, h'.2⟩, ?_⟩
            · have hcopied := htaken ⟨h.1, h.2.2⟩
              rw [Copied.mk.injEq] at hcopied ⊢
              rw [hcopied.1, hcopied.2, hstands.1, Nat.add_assoc,
                Nat.add_comm 1]
              exact ⟨rfl, rfl⟩
            · simp only [List.forall_mem_cons]
              refine ⟨by omega, by omega, fun place hplace => ?_⟩
              have hbound := hreads place hplace
              omega

/-- And of a text without a space. -/
theorem copyPath_of_none (htext : space ∉ text) (hsome : text ≠ [])
    (hstands : Stands mP w (text ++ [0])) (room count : ℕ) :
    (copyPath mP room count w).outlen = none ∧
      ∀ place ∈ (copyPath mP room count w).reads,
        place ≤ w + text.length := by
  induction text generalizing room count w with
  | nil => exact absurd rfl hsome
  | cons byte rest ih =>
      rw [List.mem_cons, not_or] at htext
      have hbyte : mP w ≠ space := fun heq =>
        htext.1 (heq.symm.trans hstands.1)
      rw [List.length_cons]
      cases room with
      | zero =>
          rw [copyPath, if_neg hbyte]
          simp
      | succ room =>
          rw [copyPath, if_neg hbyte]
          dsimp only
          split
          case isTrue =>
            refine ⟨rfl, ?_⟩
            simp only [List.forall_mem_cons]
            exact ⟨by omega, by omega, fun _ h => absurd h List.not_mem_nil⟩
          case isFalse hgo =>
            have hmore : rest ≠ [] := by
              rintro rfl
              exact hgo hstands.2.1
            obtain ⟨hnone, hreads⟩ :=
              ih htext.2 hmore hstands.2 room (count + 1)
            refine ⟨hnone, ?_⟩
            simp only [List.forall_mem_cons]
            refine ⟨by omega, by omega, fun place hplace => ?_⟩
            have hbound := hreads place hplace
            omega

/-- The NUL behind the line is copied like any other byte if the loop starts
there. -/
theorem copyPath_at_end (hnul : mP w = 0) (room count : ℕ) :
    (room = 0 ∨ mP (w + 1) = 0 → (copyPath mP room count w).outlen = none) ∧
      (0 < room → w + 1 ∈ (copyPath mP room count w).reads) ∧
      (room = 0 ∨ mP (w + 1) = 0 →
        ∀ place ∈ (copyPath mP room count w).reads,
          place ≤ w + min room 1) := by
  have hother : mP w ≠ space := by
    rw [hnul]
    decide
  cases room with
  | zero =>
      rw [copyPath, if_neg hother]
      simp
  | succ room =>
      rw [copyPath, if_neg hother]
      dsimp only
      split
      case isTrue => simp
      case isFalse hgo =>
        refine ⟨fun h => absurd h (by simpa using hgo), fun _ => ?_,
          fun h => absurd h (by simpa using hgo)⟩
        exact List.mem_cons_of_mem _ List.mem_cons_self

end Loops

/-! ## The path of the first line -/

namespace HttpFSM

section Url

variable {fsm : HttpFSM} {line : Bytes} (hline : FirstLine line fsm) (l : ℕ)

include hline

theorem FirstLine.url_eq : ∃ entries,
    fsm.headers = ⟨0, line.length % 2 ^ 16⟩ :: entries :=
  List.head?_eq_some_iff.mp hline.entry

/-- The first loop ends the search. -/
theorem FirstLine.url_of_lost (hlost : ¬(space ∈ line ∧ MethodRead line)) :
    ∃ reads, fsm.url l = { reads, written := [], outlen := none } ∧
      ∀ place ∈ reads, place ≤ line.length := by
  obtain ⟨entries, hentries⟩ := hline.url_eq
  have hnone : (skipMethod fsm.mP (line.length % 2 ^ 16) 0).2 = none := by
    by_cases hspace : space ∈ line
    · have hstands := hline.stands
      rw [← method_append hspace, List.append_assoc] at hstands
      have hmethod := (stands_append.mp hstands).1
      have hword : Stands fsm.mP 0 (method line ++ [space]) :=
        stands_append.mpr ⟨hmethod, (stands_append.mp hstands).2.1, trivial⟩
      exact (skipMethod_of_space space_not_mem_method hword _).2
        fun hread => hlost ⟨hspace, hread⟩
    · exact skipMethod_of_none hspace hline.stands (Nat.mod_le _ _)
  refine ⟨_, ?_, reads_method fsm.mP line⟩
  rw [url, hentries]
  dsimp only
  rw [← Prod.eta (skipMethod fsm.mP (line.length % 2 ^ 16) 0), hnone]

/-- The first loop finds the space, and the second one starts at the target. -/
theorem FirstLine.url_of_found (hspace : space ∈ line)
    (hread : MethodRead line) :
    ∃ start reads, fsm.url l = (copyPath fsm.mP l 0 start).reading reads ∧
      (∀ place ∈ reads, place ≤ line.length) ∧
      Stands fsm.mP start (withoutSlash (behindMethod line) ++ [0]) ∧
      start + (withoutSlash (behindMethod line)).length = line.length := by
  obtain ⟨entries, hentries⟩ := hline.url_eq
  have hstands := hline.stands
  have hlength := congrArg List.length (method_append hspace)
  rw [← method_append hspace, List.append_assoc, stands_append,
    Nat.zero_add] at hstands
  rw [List.length_append, List.length_cons] at hlength
  obtain ⟨hmethod, hword, hbehind⟩ := hstands
  change Stands _ _ (behindMethod line ++ [0]) at hbehind
  have hfound := (skipMethod_of_space space_not_mem_method
    (stands_append.mpr ⟨hmethod, by rwa [Nat.zero_add], trivial⟩) _).1 hread
  rw [Nat.zero_add] at hfound
  have hurl : fsm.url l = (copyPath fsm.mP l 0
      (if fsm.mP ((method line).length + 1) = slash then
        (method line).length + 2 else (method line).length + 1)).reading
        ((skipMethod fsm.mP (line.length % 2 ^ 16) 0).1 ++
          [(method line).length + 1]) := by
    rw [url, hentries]
    dsimp only
    rw [← Prod.eta (skipMethod fsm.mP (line.length % 2 ^ 16) 0), hfound]
  refine ⟨_, _, hurl, ?_, ?_⟩
  · rw [List.forall_mem_append, List.forall_mem_singleton]
    exact ⟨reads_method fsm.mP line, by omega⟩
  · cases hrest : behindMethod line with
    | nil =>
        rw [hrest, List.nil_append] at hbehind
        rw [hrest, List.length_nil] at hlength
        have hnul : fsm.mP ((method line).length + 1) ≠ slash := by
          rw [hbehind.1]
          decide
        rw [if_neg hnul, withoutSlash]
        exact ⟨hbehind, by rw [List.length_nil]; omega⟩
    | cons byte rest =>
        rw [hrest, List.cons_append] at hbehind
        rw [hrest, List.length_cons] at hlength
        rw [hbehind.1, withoutSlash]
        split
        · exact ⟨hbehind.2, by omega⟩
        · exact ⟨hbehind, by rw [List.length_cons]; omega⟩

/-- What is read up to the NUL behind the line is no part of a later line. -/
theorem FirstLine.lt_later {places : List ℕ}
    (hplaces : ∀ place ∈ places, place ≤ line.length) :
    ∀ place ∈ places, ∀ header ∈ fsm.headers.tail, place < header.hd := by
  intro place hplace header hheader
  have hbound := hplaces place hplace
  have hlater := hline.later header hheader
  omega

/-- If the first loop finds nothing, nothing may be there to be found. -/
theorem FirstLine.readsPath_of_lost
    (hlost : ¬(space ∈ line ∧ MethodRead line)) :
    ReadsPath l line fsm ↔ path l line = none := by
  obtain ⟨reads, hurl, hbound⟩ := hline.url_of_lost l hlost
  constructor
  · intro hpath
    have hreturns := hpath.returns
    rw [hurl] at hreturns
    cases hvalue : path l line with
    | none => rfl
    | some text =>
        rw [hvalue] at hreturns
        have hlength := congrArg Copied.outlen hreturns
        contradiction
  · intro hnone
    refine ⟨?_, ?_⟩
    · rw [hnone, hurl]
      rfl
    · rw [hurl]
      exact hline.lt_later hbound

/-- What the second loop returns and reads is what `url` returns and reads. -/
theorem FirstLine.readsPath_of_found {start : ℕ} {reads : List ℕ}
    (hurl : fsm.url l = (copyPath fsm.mP l 0 start).reading reads)
    (hbound : ∀ place ∈ reads, place ≤ line.length) :
    ReadsPath l line fsm ↔
      (copyPath fsm.mP l 0 start).toCopied.Returns (path l line) ∧
        ∀ place ∈ (copyPath fsm.mP l 0 start).reads,
          ∀ header ∈ fsm.headers.tail, place < header.hd := by
  have hcopied : (fsm.url l).toCopied =
      (copyPath fsm.mP l 0 start).toCopied := by
    rw [hurl]
    rfl
  have hreads : (fsm.url l).reads =
      reads ++ (copyPath fsm.mP l 0 start).reads := by
    rw [hurl]
    rfl
  constructor
  · intro hpath
    have hlater := hpath.reads
    rw [hreads, List.forall_mem_append] at hlater
    exact ⟨hcopied ▸ hpath.returns, hlater.2⟩
  · rintro ⟨hreturns, hlater⟩
    refine ⟨hcopied ▸ hreturns, ?_⟩
    rw [hreads, List.forall_mem_append]
    exact ⟨hline.lt_later hbound, hlater⟩

/-- A line with two spaces. -/
theorem FirstLine.readsPath_of_target {text : Bytes} (hspace : space ∈ line)
    (hread : MethodRead line) (htarget : target line = some text) :
    ReadsPath l line fsm ↔
      (text.length < l → 0 ∉ text.tail) ∧
        (text.length = l → ¬0 ∉ text.tail) := by
  obtain ⟨start, reads, hurl, hbound, hstands, hend⟩ :=
    hline.url_of_found l hspace hread
  rw [hline.readsPath_of_found l hurl hbound]
  rw [target] at htarget
  split at htarget
  case isFalse => contradiction
  case isTrue hsecond =>
    obtain ⟨more, hmore⟩ := withoutSlash_append hsecond
    rw [method, Option.some.inj htarget] at hmore
    rw [hmore, List.append_assoc] at hstands
    rw [hmore, List.length_append, List.length_cons] at hend
    obtain ⟨htext, hword, -⟩ := stands_append.mp hstands
    have hquiet : space ∉ text := by
      rw [← Option.some.inj htarget]
      exact fun hmem => space_not_mem_method (mem_of_mem_withoutSlash hmem)
    obtain ⟨htaken, hrefused, hreads⟩ := copyPath_of_space hquiet
      (stands_append.mpr ⟨htext, hword, trivial⟩) l 0
    have hlater := hline.lt_later fun place hplace =>
      (hreads place hplace).trans (show start + text.length ≤ line.length by
        omega)
    have hpath : path l line = if text.length < l then some text else none := by
      rw [path, target, if_pos hsecond, htarget, Option.filter_some]
      simp
    rw [and_iff_left hlater, hpath]
    by_cases hfits : text.length < l
    · rw [if_pos hfits]
      have hother : text.length ≠ l := Nat.ne_of_lt hfits
      by_cases hnul : 0 ∈ text.tail
      · have hnone := hrefused fun h => h.2 hnul
        refine iff_of_false (fun hreturns => ?_) fun h => h.1 hfits hnul
        have hsome := congrArg Copied.outlen hreturns
        rw [hnone] at hsome
        contradiction
      · have hcopied := htaken ⟨Nat.le_of_lt hfits, hnul⟩
        rw [Nat.zero_add] at hcopied
        exact iff_of_true hcopied ⟨fun _ => hnul, fun h => absurd h hother⟩
    · rw [if_neg hfits]
      by_cases hfull : text.length = l ∧ 0 ∉ text.tail
      · have hcopied := htaken ⟨Nat.le_of_eq hfull.1, hfull.2⟩
        refine iff_of_false (fun hnone => ?_) fun h => h.2 hfull.1 hfull.2
        rw [hcopied] at hnone
        contradiction
      · refine iff_of_true (hrefused fun h => hfull ⟨by omega, h.2⟩)
          ⟨fun h => absurd h hfits, fun h hnul => hfull ⟨h, hnul⟩⟩

/-- A line with one space. -/
theorem FirstLine.readsPath_of_open (hspace : space ∈ line)
    (hread : MethodRead line) (htarget : target line = none) :
    ReadsPath l line fsm ↔
      (withoutSlash (behindMethod line) = [] → 0 < l →
        ∀ header ∈ fsm.headers.tail, header.hd ≠ line.length + 1) := by
  obtain ⟨start, reads, hurl, hbound, hstands, hend⟩ :=
    hline.url_of_found l hspace hread
  have hpath : path l line = none := by
    rw [path, htarget]
    rfl
  have hquiet : space ∉ withoutSlash (behindMethod line) := by
    rw [target] at htarget
    split at htarget
    case isTrue => contradiction
    case isFalse hnone => exact fun hmem => hnone (mem_of_mem_withoutSlash hmem)
  rw [hline.readsPath_of_found l hurl hbound, hpath]
  by_cases hempty : withoutSlash (behindMethod line) = []
  · rw [hempty, List.length_nil, Nat.add_zero] at hend
    rw [hempty, hend] at hstands
    rw [hend]
    obtain ⟨hnone, hnext, hreads⟩ := copyPath_at_end hstands.1 l 0
    by_cases hroom : 0 < l
    · constructor
      · rintro ⟨-, hlater⟩ - - header hheader
        exact Nat.ne_of_gt (hlater _ (hnext hroom) header hheader)
      · intro hapart
        have hapart := hapart hempty hroom
        have hnul := hline.ended hapart
        refine ⟨hnone (.inr hnul), fun place hplace header hheader => ?_⟩
        have hplaces := hreads (.inr hnul) place hplace
        have hlater := hline.later header hheader
        have hother := hapart header hheader
        omega
    · have hzero : l = 0 := Nat.eq_zero_of_not_pos hroom
      refine iff_of_true ⟨hnone (.inl hzero), fun place hplace => ?_⟩
        fun _ hpos => absurd hpos hroom
      have hplaces := hreads (.inl hzero) place hplace
      exact hline.lt_later (fun other hother => by
        rw [List.mem_singleton.mp hother]
        omega) place (List.mem_singleton_self place)
  · obtain ⟨hnone, hreads⟩ := copyPath_of_none hquiet hempty hstands l 0
    refine iff_of_true ⟨hnone, ?_⟩ fun h => absurd h hempty
    exact hline.lt_later fun place hplace => hend ▸ hreads place hplace

/-- When `url` does on a first line what it is to do. -/
theorem FirstLine.readsPath_iff :
    ReadsPath l line fsm ↔ PathReadable l line fsm := by
  have hnone : space ∉ line → target line = none := fun hspace => by
    rw [target, behindMethod_of_not_mem hspace, if_neg List.not_mem_nil]
  by_cases hlost : space ∈ line ∧ MethodRead line
  · obtain ⟨hspace, hread⟩ := hlost
    cases htarget : target line with
    | none =>
        rw [hline.readsPath_of_open l hspace hread htarget]
        constructor
        · intro hended
          refine ⟨?_, ?_, fun _ hempty _ => hended hempty⟩
          · simp [htarget]
          · simp [htarget]
        · exact fun hreadable hempty => hreadable.ended hspace hempty hread
    | some text =>
        rw [hline.readsPath_of_target l hspace hread htarget]
        constructor
        · rintro ⟨hfits, hfull⟩
          refine ⟨?_, ?_, fun _ hempty => ?_⟩
          · rw [htarget]
            rintro _ ⟨⟩ hshort
            exact ⟨hread, hfits hshort⟩
          · rw [htarget]
            rintro _ ⟨⟩ hlength htaken
            exact hfull hlength htaken.2
          · rw [target] at htarget
            split at htarget
            case isFalse => contradiction
            case isTrue hsecond =>
              obtain ⟨more, hmore⟩ := withoutSlash_append hsecond
              rw [hmore] at hempty
              exact absurd hempty (List.append_ne_nil_of_right_ne_nil _
                (List.cons_ne_nil _ _))
        · intro hreadable
          refine ⟨fun hshort => ?_, fun hlength hnul => ?_⟩
          · exact (hreadable.fits text htarget hshort).2
          · exact hreadable.full text htarget hlength ⟨hread, hnul⟩
  · rw [hline.readsPath_of_lost l hlost, path, Option.filter_eq_none_iff]
    constructor
    · intro hlong
      refine ⟨fun text htext hshort => ?_, fun text htext _ htaken => ?_,
        fun hspace _ hread => absurd ⟨hspace, hread⟩ hlost⟩
      · exact absurd (decide_eq_true hshort) (hlong text htext)
      · refine hlost ⟨?_, htaken.1⟩
        by_contra hspace
        rw [hnone hspace] at htext
        contradiction
    · intro hreadable text htext hshort
      have htaken := hreadable.fits text htext (of_decide_eq_true hshort)
      refine hlost ⟨?_, htaken.1⟩
      by_contra hspace
      rw [hnone hspace] at htext
      contradiction

end Url

/-- For every stream that finishes, however it is cut into calls and as long as
it is written inside the buffer, the first line is that of the stream, and
`url` does on it what it is to do if and only if the condition holds. -/
theorem url_reads_path_iff {chunkSize : ℕ} (hlow : 2 ≤ chunkSize)
    (hhigh : chunkSize < 2 ^ 32) (memory : ℕ → UInt8) (fsm : HttpFSM)
    {calls : List Bytes}
    (hinside : ∀ stored ∈ (fsm.reset chunkSize memory).storesAll calls,
      stored.InBounds)
    (hfinish : ((fsm.reset chunkSize memory).appendAll calls).state =
      .recvFinish) :
    ∃ first rest,
      headerLines 0 [] [] calls.flatten = some (first :: rest) ∧
        ∀ l, ReadsPath l first ((fsm.reset chunkSize memory).appendAll calls) ↔
          PathReadable l first
            ((fsm.reset chunkSize memory).appendAll calls) := by
  obtain ⟨first, rest, hlines, hline⟩ :=
    firstLine_of_finish hlow hhigh hinside hfinish
  exact ⟨first, rest, hlines, fun l => hline.readsPath_iff l⟩

theorem url_reads_path_iff_request :
    ∃ first rest,
      headerLines 0 [] [] [ascii "GET /abc HTTP/1.1\r\n\r\n"].flatten =
          some (first :: rest) ∧
        ∀ l, ReadsPath l first ((blank.reset 512 fun _ => 0).appendAll
              [ascii "GET /abc HTTP/1.1\r\n\r\n"]) ↔
          PathReadable l first ((blank.reset 512 fun _ => 0).appendAll
              [ascii "GET /abc HTTP/1.1\r\n\r\n"]) :=
  url_reads_path_iff (by decide) (by decide) _ _
    (inBounds_of_short (by decide) (by decide) _ _ (by decide +kernel))
    (by decide +kernel)

/-- Behind "GET /" and an LF the name of the next line is returned, with the
NUL of the first line before it. -/
theorem url_reads_path_iff_fails :
    ((blank.reset 512 fun _ => 0).append (ascii "GET /\nA: b\n\n")).state =
        .recvFinish ∧
      headerLines 0 [] [] (ascii "GET /\nA: b\n\n") =
        some [ascii "GET /", ascii "A: b"] ∧
      (((blank.reset 512 fun _ => 0).append
        (ascii "GET /\nA: b\n\n")).url 256).toCopied =
          { written := 0 :: (ascii "A:" ++ [0]), outlen := some 3 } ∧
      ¬ReadsPath 256 (ascii "GET /")
        ((blank.reset 512 fun _ => 0).append (ascii "GET /\nA: b\n\n")) := by
  refine ⟨by decide +kernel, by decide +kernel, by decide +kernel,
    fun hpath => ?_⟩
  have hnone : path 256 (ascii "GET /") = none := by decide
  have houtlen : (((blank.reset 512 fun _ => 0).append
      (ascii "GET /\nA: b\n\n")).url 256).outlen = some 3 := by
    decide +kernel
  have hreturns := hpath.returns
  rw [hnone, Copied.Returns, houtlen] at hreturns
  exact Option.some_ne_none 3 hreturns

end HttpFSM

end GrpcMtk.Http
