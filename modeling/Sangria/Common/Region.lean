import Sangria.Common.Types
import Sangria.Lib.Splitting

/-!
# The text form of zones and regions

`Display` and `FromStr` of a cloud, a region and a zone.  A zone is written as its
region, a slash and its name, and a region as its cloud, a colon and its name; the
names of the public clouds are keywords.
-/

namespace Sangria

open Splitting

/-- `str::split` for a separator of one character. -/
def split (separator : Char) (text : String) : List String :=
  (List.splitOn separator text.toList).map String.ofList

namespace Cloud

def display : Cloud → String
  | .aws => "aws"
  | .azure => "azure"
  | .gcp => "gcp"
  | .other name => name

def fromStr (text : String) : Except String Cloud :=
  if text = "aws" then .ok .aws
  else if text = "azure" then .ok .azure
  else if text = "gcp" then .ok .gcp
  else .ok (.other text)

end Cloud

namespace Region

def display (region : Region) : String :=
  match region.cloud with
  | none => region.name
  | some cloud => cloud.display ++ ":" ++ region.name

def fromStr (text : String) : Except String Region :=
  match split ':' text with
  | [_] => .ok ⟨none, text⟩
  | [cloud, name] => do return ⟨some (← Cloud.fromStr cloud), name⟩
  | _ => .error "invalid region string"

end Region

namespace Zone

def display (zone : Zone) : String := zone.region.display ++ "/" ++ zone.name

def fromStr (text : String) : Except String Zone :=
  match split '/' text with
  | [region, name] => do return ⟨← Region.fromStr region, name⟩
  | _ => .error "Invalid zone string"

end Zone

/-! ## Parts of a text -/

variable {separator : Char} {text left right : String}

theorem split_pair_iff : split separator text = [left, right] ↔
    text.toList = left.toList ++ separator :: right.toList ∧ separator ∉ left.toList ∧
      separator ∉ right.toList := by
  rw [← splitOn_pair_iff, split]
  constructor
  · intro parts
    have lists := congrArg (List.map String.toList) parts
    simpa using lists
  · intro parts
    simp [parts]

theorem split_of_notMem (absent : separator ∉ text.toList) : split separator text = [text] := by
  simp [split, List.splitOn_eq_singleton absent]

theorem length_split : (split separator text).length = text.toList.count separator + 1 := by
  rw [split, List.length_map, length_splitOn]

theorem split_append (notLeft : separator ∉ left.toList) (notRight : separator ∉ right.toList) :
    split separator (left ++ separator.toString ++ right) = [left, right] := by
  rw [split_pair_iff]
  exact ⟨by simp, notLeft, notRight⟩

theorem eq_append_of_split {middle : String} (parts : split separator text = [left, right])
    (separates : middle.toList = [separator]) : left ++ middle ++ right = text := by
  rw [← String.toList_inj]
  simp [(split_pair_iff.mp parts).1, separates]

/-! ## Clouds -/

namespace Cloud

def keywords : List String := ["aws", "azure", "gcp"]

/-- A cloud that the parser reads back. -/
def Plain : Cloud → Prop
  | .other name => '/' ∉ name.toList ∧ ':' ∉ name.toList ∧ name ∉ keywords
  | _ => True

theorem fromStr_ok (text : String) : ∃ cloud, fromStr text = .ok cloud ∧ cloud.display = text := by
  unfold fromStr
  repeat' split
  all_goals exact ⟨_, rfl, by simp_all [display]⟩

theorem fromStr_display (cloud : Cloud) : fromStr cloud.display = .ok cloud ↔
    ∀ name, cloud = .other name → name ∉ keywords := by
  cases cloud with
  | aws | azure | gcp => simp [fromStr, display]
  | other name =>
    simp only [fromStr, display, keywords, other.injEq]
    grind

end Cloud

/-! ## Regions -/

namespace Region

def Plain (region : Region) : Prop :=
  '/' ∉ region.name.toList ∧ ':' ∉ region.name.toList ∧ ∀ cloud ∈ region.cloud, cloud.Plain

theorem fromStr_eq_ok {region : Region} (parsed : fromStr text = .ok region) :
    region.display = text ∧ text.toList.count ':' ≤ 1 := by
  have length := @length_split ':' text
  unfold fromStr at parsed
  split at parsed
  next single =>
    cases parsed
    rw [single] at length
    exact ⟨rfl, by simp only [List.length_cons, List.length_nil] at length; omega⟩
  next cloud name pair =>
    obtain ⟨read, ok, shown⟩ := Cloud.fromStr_ok cloud
    rw [ok] at parsed
    cases parsed
    rw [pair] at length
    refine ⟨?_, by simp only [List.length_cons, List.length_nil] at length; omega⟩
    rw [display]
    simp only [shown]
    exact eq_append_of_split pair rfl
  next => cases parsed

theorem exists_fromStr (few : text.toList.count ':' ≤ 1) : ∃ region, fromStr text = .ok region := by
  have length := @length_split ':' text
  unfold fromStr
  split
  next => exact ⟨_, rfl⟩
  next cloud name pair =>
    obtain ⟨read, ok, _⟩ := Cloud.fromStr_ok cloud
    exact ⟨⟨some read, name⟩, by rw [ok]; rfl⟩
  next notOne notTwo =>
    exfalso
    match parts : split ':' text with
    | [] => simp [parts] at length
    | [only] => exact notOne only parts
    | [first, second] => exact notTwo first second parts
    | _ :: _ :: _ :: _ =>
      rw [parts] at length
      simp only [List.length_cons] at length
      omega

theorem count_display_cloud (cloud : Cloud) (name : String) :
    (display ⟨some cloud, name⟩).toList.count separator =
      cloud.display.toList.count separator + [':'].count separator +
        name.toList.count separator := by
  simp only [display, String.toList_append, List.count_append]
  rfl

theorem fromStr_pair {cloud name : String} (notCloud : ':' ∉ cloud.toList)
    (notName : ':' ∉ name.toList) :
    fromStr (cloud ++ ":" ++ name) = do return ⟨some (← Cloud.fromStr cloud), name⟩ := by
  have parts : split ':' (cloud ++ ":" ++ name) = [cloud, name] := split_append notCloud notName
  simp only [fromStr, parts]

theorem fromStr_display_none {name : String} :
    fromStr name = .ok ⟨none, name⟩ ↔ ':' ∉ name.toList := by
  constructor
  · intro parsed
    have length := @length_split ':' name
    unfold fromStr at parsed
    split at parsed
    next single =>
      rw [single] at length
      simp only [List.length_cons, List.length_nil] at length
      exact List.count_eq_zero.mp (by omega)
    next cloud _ _ =>
      obtain ⟨read, ok, _⟩ := Cloud.fromStr_ok cloud
      rw [ok] at parsed
      cases parsed
    next => cases parsed
  · intro absent
    simp [fromStr, split_of_notMem absent]

theorem fromStr_display_some {cloud : Cloud} {name : String} :
    fromStr (display ⟨some cloud, name⟩) = .ok ⟨some cloud, name⟩ ↔
      ':' ∉ cloud.display.toList ∧ ':' ∉ name.toList ∧
        Cloud.fromStr cloud.display = .ok cloud := by
  constructor
  · intro parsed
    have one := (fromStr_eq_ok parsed).2
    rw [count_display_cloud, List.count_singleton_self] at one
    have notCloud : ':' ∉ cloud.display.toList := List.count_eq_zero.mp (by omega)
    have notName : ':' ∉ name.toList := List.count_eq_zero.mp (by omega)
    refine ⟨notCloud, notName, ?_⟩
    rw [display, fromStr_pair notCloud notName] at parsed
    obtain ⟨read, ok, _⟩ := Cloud.fromStr_ok cloud.display
    rw [ok] at parsed ⊢
    cases parsed
    rfl
  · rintro ⟨notCloud, notName, ok⟩
    rw [display, fromStr_pair notCloud notName, ok]
    rfl

end Region

/-! ## Zones -/

namespace Zone

variable {zone : Zone}

/-- The zones that the parser reads back. -/
def Plain (zone : Zone) : Prop := '/' ∉ zone.name.toList ∧ zone.region.Plain

theorem fromStr_eq_ok_iff : fromStr text = .ok zone ↔
    ∃ region, split '/' text = [region, zone.name] ∧ Region.fromStr region = .ok zone.region := by
  unfold fromStr
  split
  next region name parts =>
    cases parsed : Region.fromStr region with
    | error message => simp [parts, parsed, bind, Except.bind]
    | ok read =>
      obtain ⟨given, zoneName⟩ := zone
      simp [parts, parsed, bind, Except.bind, pure, Except.pure]
      grind
  next other =>
    simp only [reduceCtorEq, false_iff, not_exists, not_and]
    intro region parts
    exact absurd parts (other region zone.name)

theorem accepts_iff : (∃ zone, fromStr text = .ok zone) ↔
    text.toList.count '/' = 1 ∧ (text.toList.takeWhile (· ≠ '/')).count ':' ≤ 1 := by
  constructor
  · rintro ⟨zone, parsed⟩
    obtain ⟨region, parts, read⟩ := fromStr_eq_ok_iff.mp parsed
    have length := @length_split '/' text
    obtain ⟨whole, notLeft, _⟩ := split_pair_iff.mp parts
    rw [parts] at length
    rw [whole, takeWhile_eq_left notLeft, ← whole]
    exact ⟨Nat.succ.inj length.symm, (Region.fromStr_eq_ok read).2⟩
  · rintro ⟨one, few⟩
    have length := @length_split '/' text
    rw [one] at length
    obtain ⟨region, name, parts⟩ := List.length_eq_two.mp length
    obtain ⟨whole, notLeft, _⟩ := split_pair_iff.mp parts
    rw [whole, takeWhile_eq_left notLeft] at few
    obtain ⟨read, ok⟩ := Region.exists_fromStr few
    exact ⟨⟨read, name⟩, fromStr_eq_ok_iff.mpr ⟨region, parts, ok⟩⟩

theorem display_of_fromStr (parsed : fromStr text = .ok zone) : zone.display = text := by
  obtain ⟨region, parts, read⟩ := fromStr_eq_ok_iff.mp parsed
  rw [display, (Region.fromStr_eq_ok read).1]
  exact eq_append_of_split parts rfl

theorem fromStr_display_iff : fromStr zone.display = .ok zone ↔
    '/' ∉ zone.name.toList ∧ '/' ∉ zone.region.display.toList ∧
      Region.fromStr zone.region.display = .ok zone.region := by
  constructor
  · intro parsed
    obtain ⟨region, parts, read⟩ := fromStr_eq_ok_iff.mp parsed
    obtain ⟨_, notLeft, notRight⟩ := split_pair_iff.mp parts
    rw [(Region.fromStr_eq_ok read).1]
    exact ⟨notRight, notLeft, read⟩
  · rintro ⟨notName, notRegion, read⟩
    exact fromStr_eq_ok_iff.mpr ⟨_, split_append notRegion notName, read⟩

theorem plain_iff : zone.Plain ↔ '/' ∉ zone.name.toList ∧ '/' ∉ zone.region.display.toList ∧
    Region.fromStr zone.region.display = .ok zone.region := by
  obtain ⟨⟨_ | cloud, regionName⟩, name⟩ := zone
  · simp only [Plain, Region.Plain, Region.display, Region.fromStr_display_none]
    simp
  · rw [Region.fromStr_display_some, Cloud.fromStr_display]
    cases cloud with
    | aws | azure | gcp => simp [Plain, Region.Plain, Region.display, Cloud.Plain, Cloud.display]
    | other cloudName =>
      simp [Plain, Region.Plain, Region.display, Cloud.Plain, Cloud.display]
      tauto

/-- The parser accepts the texts with one slash and at most one colon before it, the
printer gives an accepted text back, and a zone is read back when it is plain. -/
theorem text_format :
    (∀ text, (∃ zone, fromStr text = .ok zone) ↔
      text.toList.count '/' = 1 ∧ (text.toList.takeWhile (· ≠ '/')).count ':' ≤ 1) ∧
    (∀ text zone, fromStr text = .ok zone → zone.display = text) ∧
    (∀ first second zone, fromStr first = .ok zone → fromStr second = .ok zone →
      first = second) ∧
    ∀ zone, fromStr zone.display = .ok zone ↔ zone.Plain := by
  refine ⟨fun _ => accepts_iff, fun _ _ => display_of_fromStr, ?_, ?_⟩
  · intro first second zone readFirst readSecond
    rw [← display_of_fromStr readFirst, ← display_of_fromStr readSecond]
  · intro zone
    rw [fromStr_display_iff, plain_iff]

end Zone

end Sangria
