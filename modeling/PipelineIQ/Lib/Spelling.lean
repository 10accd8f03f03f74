import PipelineIQ.Lib.Json
import PipelineIQ.Lib.Yaml

namespace PipelineIQ.Lib

/-! Unambiguous spellings: of two spelled documents with something behind each, the documents
are read off from the front. -/

/-- Every character after a dot, and a mark behind the last one. -/
def spellText : List Char → List Char
  | [] => ['!']
  | c :: text => '.' :: c :: spellText text

theorem spellText_append {s t : List Char} {u v : List Char}
    (h : spellText s ++ u = spellText t ++ v) : s = t ∧ u = v := by
  induction s generalizing t with
  | nil =>
    cases t with
    | nil => exact ⟨rfl, (List.cons.inj h).2⟩
    | cons c t => exact absurd (List.cons.inj h).1 (by decide)
  | cons c s ih =>
    cases t with
    | nil => exact absurd (List.cons.inj h).1 (by decide)
    | cons d t =>
      obtain ⟨hc, hrest⟩ := List.cons.inj (List.cons.inj h).2
      obtain ⟨rfl, rfl⟩ := ih hrest
      exact ⟨hc ▸ rfl, rfl⟩

namespace Json

mutual

def spell : Json → List Char
  | .null => ['n']
  | .bool true => ['t']
  | .bool false => ['f']
  | .num literal => '#' :: spellText literal.toList
  | .str value => '$' :: spellText value.toList
  | .arr items => '[' :: spellItems items
  | .obj fields => '(' :: spellFields fields

def spellItems : List Json → List Char
  | [] => [']']
  | item :: rest => ',' :: (spell item ++ spellItems rest)

def spellFields : List (String × Json) → List Char
  | [] => [')']
  | (name, value) :: rest => ',' :: (spellText name.toList ++ (spell value ++ spellFields rest))

end

mutual

theorem spell_append : ∀ (a b : Json) {u v : List Char}, spell a ++ u = spell b ++ v → a = b ∧ u = v
  | .arr xs, .arr ys, u, v, h => by
    obtain ⟨rfl, rfl⟩ := spellItems_append xs ys (List.cons.inj h).2
    exact ⟨rfl, rfl⟩
  | .obj xs, .obj ys, u, v, h => by
    obtain ⟨rfl, rfl⟩ := spellFields_append xs ys (List.cons.inj h).2
    exact ⟨rfl, rfl⟩
  | .num s, .num t, u, v, h => by
    obtain ⟨ht, rfl⟩ := spellText_append (List.cons.inj h).2
    exact ⟨congrArg Json.num (String.toList_injective ht), rfl⟩
  | .str s, .str t, u, v, h => by
    obtain ⟨ht, rfl⟩ := spellText_append (List.cons.inj h).2
    exact ⟨congrArg Json.str (String.toList_injective ht), rfl⟩
  | .null, .null, _, _, h => ⟨rfl, (List.cons.inj h).2⟩
  | .bool true, .bool true, _, _, h => ⟨rfl, (List.cons.inj h).2⟩
  | .bool false, .bool false, _, _, h => ⟨rfl, (List.cons.inj h).2⟩

theorem spellItems_append : ∀ (xs ys : List Json) {u v : List Char},
    spellItems xs ++ u = spellItems ys ++ v → xs = ys ∧ u = v
  | [], [], _, _, h => ⟨rfl, (List.cons.inj h).2⟩
  | [], _ :: _, _, _, h => absurd (List.cons.inj h).1 (by decide)
  | _ :: _, [], _, _, h => absurd (List.cons.inj h).1 (by decide)
  | x :: xs, y :: ys, u, v, h => by
    have hitems : (spell x ++ spellItems xs) ++ u = (spell y ++ spellItems ys) ++ v :=
      (List.cons.inj h).2
    rw [List.append_assoc, List.append_assoc] at hitems
    obtain ⟨rfl, hrest⟩ := spell_append x y hitems
    obtain ⟨rfl, rfl⟩ := spellItems_append xs ys hrest
    exact ⟨rfl, rfl⟩

theorem spellFields_append : ∀ (xs ys : List (String × Json)) {u v : List Char},
    spellFields xs ++ u = spellFields ys ++ v → xs = ys ∧ u = v
  | [], [], _, _, h => ⟨rfl, (List.cons.inj h).2⟩
  | [], _ :: _, _, _, h => absurd (List.cons.inj h).1 (by decide)
  | _ :: _, [], _, _, h => absurd (List.cons.inj h).1 (by decide)
  | (name, x) :: xs, (other, y) :: ys, u, v, h => by
    have hfields : (spellText name.toList ++ (spell x ++ spellFields xs)) ++ u =
        (spellText other.toList ++ (spell y ++ spellFields ys)) ++ v := (List.cons.inj h).2
    rw [List.append_assoc, List.append_assoc, List.append_assoc, List.append_assoc] at hfields
    obtain ⟨hname, hvalues⟩ := spellText_append hfields
    obtain ⟨rfl, hrest⟩ := spell_append x y hvalues
    obtain ⟨rfl, rfl⟩ := spellFields_append xs ys hrest
    exact ⟨by rw [String.toList_injective hname], rfl⟩

end

theorem spell_injective : Function.Injective spell := by
  intro a b h
  exact (spell_append a b (congrArg (· ++ []) h)).1

end Json

namespace Yaml

/-- The sign of a number and as many strokes as it counts. -/
def strokes : Int → List Char
  | .ofNat n => '+' :: List.replicate n 'i'
  | .negSucc n => '-' :: List.replicate n 'i'

theorem strokes_injective : Function.Injective strokes := by
  have hlength : ∀ {m n : Nat}, List.replicate m 'i' = List.replicate n 'i' → m = n := by
    intro m n h
    simpa using congrArg List.length h
  intro m n h
  cases m with
  | ofNat m =>
    cases n with
    | ofNat n => rw [hlength (List.cons.inj h).2]
    | negSucc n => exact absurd (List.cons.inj h).1 (by decide)
  | negSucc m =>
    cases n with
    | ofNat n => exact absurd (List.cons.inj h).1 (by decide)
    | negSucc n => rw [hlength (List.cons.inj h).2]

def spellNumber (q : Rat) : List Char := spellText (strokes q.num) ++ spellText (strokes q.den)

theorem spellNumber_append {p q : Rat} {u v : List Char}
    (h : spellNumber p ++ u = spellNumber q ++ v) : p = q ∧ u = v := by
  rw [spellNumber, spellNumber, List.append_assoc, List.append_assoc] at h
  obtain ⟨hnum, hrest⟩ := spellText_append h
  obtain ⟨hden, rfl⟩ := spellText_append hrest
  exact ⟨Rat.ext (strokes_injective hnum) (Int.ofNat.inj (strokes_injective hden)), rfl⟩

def Key.spell : Key → List Char
  | .null => ['n']
  | .number q => '#' :: spellNumber q
  | .text t => '$' :: spellText t

theorem Key.spell_append : ∀ (a b : Key) {u v : List Char}, a.spell ++ u = b.spell ++ v → a = b ∧ u = v
  | .null, .null, _, _, h => ⟨rfl, (List.cons.inj h).2⟩
  | .number p, .number q, u, v, h => by
    obtain ⟨rfl, rfl⟩ := spellNumber_append (List.cons.inj h).2
    exact ⟨rfl, rfl⟩
  | .text s, .text t, u, v, h => by
    obtain ⟨rfl, rfl⟩ := spellText_append (List.cons.inj h).2
    exact ⟨rfl, rfl⟩

namespace Node

mutual

def spell : Node → List Char
  | .null => ['n']
  | .bool true => ['t']
  | .bool false => ['f']
  | .int n => '#' :: spellText (strokes n)
  | .float q => '.' :: spellNumber q
  | .text t => '$' :: spellText t
  | .seq items => '[' :: spellItems items
  | .map entries => '(' :: spellEntries entries

def spellItems : List Node → List Char
  | [] => [']']
  | item :: rest => ',' :: (spell item ++ spellItems rest)

def spellEntries : List (Key × Node) → List Char
  | [] => [')']
  | (k, value) :: rest => ',' :: (k.spell ++ (spell value ++ spellEntries rest))

end

mutual

theorem spell_append : ∀ (a b : Node) {u v : List Char}, spell a ++ u = spell b ++ v → a = b ∧ u = v
  | .seq xs, .seq ys, u, v, h => by
    obtain ⟨rfl, rfl⟩ := spellItems_append xs ys (List.cons.inj h).2
    exact ⟨rfl, rfl⟩
  | .map xs, .map ys, u, v, h => by
    obtain ⟨rfl, rfl⟩ := spellEntries_append xs ys (List.cons.inj h).2
    exact ⟨rfl, rfl⟩
  | .int m, .int n, u, v, h => by
    obtain ⟨hn, rfl⟩ := spellText_append (List.cons.inj h).2
    exact ⟨congrArg Node.int (strokes_injective hn), rfl⟩
  | .float p, .float q, u, v, h => by
    obtain ⟨rfl, rfl⟩ := spellNumber_append (List.cons.inj h).2
    exact ⟨rfl, rfl⟩
  | .text s, .text t, u, v, h => by
    obtain ⟨rfl, rfl⟩ := spellText_append (List.cons.inj h).2
    exact ⟨rfl, rfl⟩
  | .null, .null, _, _, h => ⟨rfl, (List.cons.inj h).2⟩
  | .bool true, .bool true, _, _, h => ⟨rfl, (List.cons.inj h).2⟩
  | .bool false, .bool false, _, _, h => ⟨rfl, (List.cons.inj h).2⟩

theorem spellItems_append : ∀ (xs ys : List Node) {u v : List Char},
    spellItems xs ++ u = spellItems ys ++ v → xs = ys ∧ u = v
  | [], [], _, _, h => ⟨rfl, (List.cons.inj h).2⟩
  | [], _ :: _, _, _, h => absurd (List.cons.inj h).1 (by decide)
  | _ :: _, [], _, _, h => absurd (List.cons.inj h).1 (by decide)
  | x :: xs, y :: ys, u, v, h => by
    have hitems : (spell x ++ spellItems xs) ++ u = (spell y ++ spellItems ys) ++ v :=
      (List.cons.inj h).2
    rw [List.append_assoc, List.append_assoc] at hitems
    obtain ⟨rfl, hrest⟩ := spell_append x y hitems
    obtain ⟨rfl, rfl⟩ := spellItems_append xs ys hrest
    exact ⟨rfl, rfl⟩

theorem spellEntries_append : ∀ (xs ys : List (Key × Node)) {u v : List Char},
    spellEntries xs ++ u = spellEntries ys ++ v → xs = ys ∧ u = v
  | [], [], _, _, h => ⟨rfl, (List.cons.inj h).2⟩
  | [], _ :: _, _, _, h => absurd (List.cons.inj h).1 (by decide)
  | _ :: _, [], _, _, h => absurd (List.cons.inj h).1 (by decide)
  | (k, x) :: xs, (j, y) :: ys, u, v, h => by
    have hentries : (k.spell ++ (spell x ++ spellEntries xs)) ++ u =
        (j.spell ++ (spell y ++ spellEntries ys)) ++ v := (List.cons.inj h).2
    rw [List.append_assoc, List.append_assoc, List.append_assoc, List.append_assoc] at hentries
    obtain ⟨rfl, hvalues⟩ := Key.spell_append k j hentries
    obtain ⟨rfl, hrest⟩ := spell_append x y hvalues
    obtain ⟨rfl, rfl⟩ := spellEntries_append xs ys hrest
    exact ⟨rfl, rfl⟩

end

theorem spell_injective : Function.Injective spell := by
  intro a b h
  exact (spell_append a b (congrArg (· ++ []) h)).1

end Node

end Yaml

end PipelineIQ.Lib
