import Mathlib.Data.List.Infix
import Mathlib.Data.List.DropRight

/-! Where a login redirect leads: `safeNext`, what `http.Redirect` sends, and how a browser
resolves it. -/

namespace BucketVcs.Web

open List

abbrev Text := List UInt8

def slash : UInt8 := 0x2F
def backslash : UInt8 := 0x5C
def tab : UInt8 := 0x09

def lower (byte : UInt8) : UInt8 := if 0x41 ≤ byte ∧ byte ≤ 0x5A then byte + 0x20 else byte

def safeNext (v : Text) : Text :=
  if v = [] ∨ ¬ [slash] <+: v ∨ [slash, slash] <+: v ∨ backslash ∈ v then [slash]
  -- "%2f" and "%5c"
  else if [0x25, 0x32, 0x66] <:+: v.map lower ∨ [0x25, 0x35, 0x63] <:+: v.map lower then [slash]
  else v

def hexDigit (n : Nat) : UInt8 := .ofNat (if n < 10 then 0x30 + n else 0x57 + n)

/-- A byte in the `Location` header: not ASCII is escaped, and CR and LF become spaces. -/
def headerByte (byte : UInt8) : Text :=
  if byte = 0x0A ∨ byte = 0x0D then [0x20]
  else if 0x80 ≤ byte then [0x25, hexDigit (byte.toNat / 16), hexDigit (byte.toNat % 16)]
  else [byte]

/-- What is assumed of `http.Redirect`: `url.Parse` rejects control bytes, and of what it accepts a
rooted target is cleaned, which adds no byte and leaves one slash in front. -/
structure Redirect where
  parses : Text → Bool
  clean : Text → Text
  plain : ∀ text, parses text = true → ∀ byte ∈ text, 0x20 ≤ byte
  clean_mem : ∀ rest, ∀ byte ∈ clean (slash :: rest), byte ∈ slash :: rest
  clean_rooted : ∀ rest, ∃ rest', clean (slash :: rest) = slash :: rest' ∧ rest'.head? ≠ some slash

def Redirect.location (redirect : Redirect) (target : Text) : Text :=
  (if redirect.parses target then redirect.clean target else target).flatMap headerByte

/-- What the WHATWG parser leaves to the hosts: the origin that an authority with what follows it
names, and the origin of a reference that does not begin with a slash. -/
structure Browser (Origin : Type) where
  authority : Text → Option Origin
  other : Text → Option Origin

def isSlash (byte : UInt8) : Bool := byte = slash || byte = backslash

def isSpace (byte : UInt8) : Bool := byte ≤ 0x20

def normalise (text : Text) : Text :=
  ((text.dropWhile isSpace).rdropWhile isSpace).filter fun byte =>
    byte ≠ tab && byte ≠ 0x0A && byte ≠ 0x0D

variable {Origin : Type}

def Browser.origin (browser : Browser Origin) (site : Origin) (reference : Text) : Option Origin :=
  match normalise reference with
  | first :: second :: rest =>
    if isSlash first && isSlash second then browser.authority (rest.dropWhile isSlash)
    else if isSlash first then some site
    else browser.other (first :: second :: rest)
  | [first] => if isSlash first then some site else browser.other [first]
  | [] => some site

theorem hexDigit_ne_backslash : ∀ n < 16, hexDigit n ≠ backslash := by decide

theorem backslash_of_headerByte {byte : UInt8} (member : backslash ∈ headerByte byte) :
    byte = backslash := by
  unfold headerByte at member
  split at member
  · exact absurd member (by decide)
  · split at member
    · simp only [mem_cons, not_mem_nil, or_false] at member
      rcases member with percent | high | low
      · cases percent
      · exact absurd high.symm (hexDigit_ne_backslash _ (by have := byte.toNat_lt; omega))
      · exact absurd low.symm (hexDigit_ne_backslash _ (Nat.mod_lt _ (by decide)))
    · exact (mem_singleton.mp member).symm

/-- What the browser is left with of a target behind its first slash. -/
def shown (rest : Text) : Text :=
  ((rest.flatMap headerByte).rdropWhile isSpace).filter fun byte =>
    byte ≠ tab && byte ≠ 0x0A && byte ≠ 0x0D

theorem rdropWhile_cons (byte : UInt8) (text : Text) : (byte :: text).rdropWhile isSpace =
    if text.rdropWhile isSpace = [] then [byte].dropWhile isSpace
    else byte :: text.rdropWhile isSpace := by
  rw [rdropWhile, reverse_cons, dropWhile_append]
  simp only [List.isEmpty_iff, rdropWhile, reverse_eq_nil_iff]
  split
  · cases space : isSpace byte <;> simp [space]
  · simp

theorem shown_slash (rest : Text) : shown (slash :: rest) = slash :: shown rest := by
  rw [shown, flatMap_cons, show headerByte slash = [slash] from rfl, singleton_append,
    rdropWhile_cons]
  split
  · next nothing => rw [shown, nothing]; rfl
  · rfl

theorem normalise_rooted (rest : Text) :
    normalise ((slash :: rest).flatMap headerByte) = slash :: shown rest := by
  rw [← shown_slash]
  rfl

theorem shown_tab (rest : Text) : shown (tab :: rest) = shown rest := by
  rw [shown, flatMap_cons, show headerByte tab = [tab] from rfl, singleton_append, rdropWhile_cons]
  split
  · next nothing => rw [shown, nothing]; rfl
  · rfl

theorem headerByte_head {byte : UInt8} (other : byte ≠ slash) (visible : byte ≠ tab) :
    ∃ first more, headerByte byte = first :: more ∧ first ≠ slash ∧
      (first ≠ tab && first ≠ 0x0A && first ≠ 0x0D) = true := by
  unfold headerByte
  split
  · exact ⟨_, _, rfl, by decide, by decide⟩
  · next line =>
      split
      · exact ⟨_, _, rfl, by decide, by decide⟩
      · exact ⟨_, _, rfl, other, by simpa [visible] using line⟩

/-- The browser finds a second slash if nothing but tabs stands before it. -/
theorem shown_eq_slash {rest after : Text} : shown rest = slash :: after ↔
    ∃ n tail, rest = replicate n tab ++ slash :: tail ∧ shown tail = after := by
  induction rest with
  | nil => simp [shown]
  | cons byte rest ih =>
    by_cases isTab : byte = tab
    · rw [isTab, shown_tab, ih]
      constructor
      · rintro ⟨n, tail, rfl, same⟩
        exact ⟨n + 1, tail, rfl, same⟩
      · rintro ⟨n, tail, split, same⟩
        cases n with
        | zero => cases split
        | succ n => exact ⟨n, tail, (cons.inj split).2, same⟩
    by_cases second : byte = slash
    · rw [second, shown_slash]
      constructor
      · intro same
        exact ⟨0, rest, rfl, (cons.inj same).2⟩
      · rintro ⟨n, tail, split, rfl⟩
        cases n with
        | zero => rw [(cons.inj split).2]
        | succ n => cases split
    · constructor
      · obtain ⟨first, more, sent, other, kept⟩ := headerByte_head second isTab
        rw [shown, flatMap_cons, sent, cons_append, rdropWhile_cons]
        intro same
        split at same
        · cases space : isSpace first <;> simp_all
        · rw [filter_cons, if_pos kept] at same
          exact absurd (cons.inj same).1 other
      · rintro ⟨n, tail, split, -⟩
        cases n with
        | zero => exact absurd (cons.inj split).1 second
        | succ n => exact absurd (cons.inj split).1 isTab

theorem origin_rooted {rest : Text} (browser : Browser Origin) (site : Origin)
    (plain : backslash ∉ rest) :
    browser.origin site ((slash :: rest).flatMap headerByte) = some site ↔
      ∀ n tail, rest = replicate n tab ++ slash :: tail →
        browser.authority ((shown tail).dropWhile isSlash) = some site := by
  have twice : (∀ n tail, rest = replicate n tab ++ slash :: tail →
      browser.authority ((shown tail).dropWhile isSlash) = some site) ↔
      ∀ after, shown rest = slash :: after →
        browser.authority (after.dropWhile isSlash) = some site := by
    simp only [shown_eq_slash]
    grind
  rw [twice, Browser.origin, normalise_rooted]
  cases held : shown rest with
  | nil => simp [isSlash]
  | cons second after =>
    have other : second ≠ backslash := by
      rintro rfl
      have member := mem_of_mem_filter (held ▸ mem_cons_self)
      obtain ⟨byte, inside, made⟩ := mem_flatMap.mp
        (List.IsPrefix.subset ( rdropWhile_prefix ..) member)
      exact plain (backslash_of_headerByte made ▸ inside)
    by_cases twice : second = slash
    · simp [isSlash, twice]
    · simp [isSlash, other, twice]

/-- Without control bytes a single slash in front stays single. -/
theorem origin_plain {rest : Text} (browser : Browser Origin) (site : Origin)
    (plain : backslash ∉ rest) (visible : ∀ byte ∈ rest, 0x20 ≤ byte)
    (single : rest.head? ≠ some slash) :
    browser.origin site ((slash :: rest).flatMap headerByte) = some site := by
  rw [origin_rooted browser site plain]
  rintro (- | n) tail rfl
  · exact absurd rfl single
  · exact absurd (visible tab (by simp [replicate_succ])) (by decide)

def sampleRedirect : Redirect where
  parses text := text.all (0x20 ≤ ·)
  clean text := slash :: text.dropWhile (· = slash)
  plain text parsed byte member := of_decide_eq_true (List.all_eq_true.mp parsed byte member)
  clean_mem rest byte member := by
    rcases List.mem_cons.mp member with rfl | later
    · exact List.mem_cons_self
    · exact (List.dropWhile_suffix _).subset later
  clean_rooted rest := by
    refine ⟨_, rfl, fun twice => ?_⟩
    have first := List.head?_dropWhile_not (fun byte : UInt8 => decide (byte = slash)) (slash :: rest)
    rw [twice] at first
    exact absurd first (by decide)

end BucketVcs.Web
