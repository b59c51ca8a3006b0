/-
The grammar of the command line.

A `CommandLine` is a list of arguments taken apart: options, clusters of short ones, words, and the
words behind `--`. What it asks for is a list of requests, in which it no longer shows how the
options were put together. Reading a written command line gives exactly its requests and its words,
and every list of arguments that can be read is a written command line, so reading decides the
grammar. The result is made from the last request for the settings, the last one for a target, the
flags that are among the requests, and the only word.

That command lines are alike when they ask for the same is no part of reading, and so it is said
separately: options may be moved, split from their clusters and repeated, as long as the last
request of each kind and the words stay what they are.
-/
import CanvasScript.CommandLine.Arguments
import Mathlib.Data.List.Induction

set_option autoImplicit false

namespace CanvasScript

/-! ## Command lines -/

/-- A letter of a cluster that asks for something by itself. -/
inductive ShortFlag where
  | debug
  | help
  deriving DecidableEq

def ShortFlag.char : ShortFlag → Char
  | debug => 'd'
  | help => 'h'

/-- What the letters of a cluster end in when the cluster is complete. -/
inductive ClusterEnd where
  | plain
  /-- No settings file. -/
  | skip
  /-- A settings file, by the first character of its path and the others. -/
  | file (first : Char) (more : List Char)
  /-- A target that is part of the cluster, by its first character and the others. -/
  | attached (first : Char) (more : List Char)

def ClusterEnd.chars : ClusterEnd → List Char
  | plain => []
  | skip => ['f']
  | file first more => 'f' :: first :: more
  | attached first more => 's' :: first :: more

/-- A word in front of `--`. -/
def IsPlainWord (word : String) : Prop := word = "-" ∨ word.toList.head? ≠ some '-'

/-- One part of a command line. -/
inductive CommandLineItem where
  | dump
  | commands
  | help
  | cluster (flags : List ShortFlag) (rest : ClusterEnd) (filled : flags ≠ [] ∨ rest ≠ .plain)
  /-- A cluster that takes the next argument as its target. -/
  | clusterWith (flags : List ShortFlag) (target : String)
  | word (text : String) (plain : IsPlainWord text)

structure CommandLine where
  items : List CommandLineItem
  /-- The words behind `--`, if it is there. -/
  behind : Option (List String)

/-- What a part of a command line can ask for. -/
inductive OptionRequest where
  | dump
  | commands
  | help
  | debug
  | settings (source : SettingsSource)
  | target (name : String)
  deriving DecidableEq

def cluster (letters : List Char) : String := String.ofList ('-' :: letters)

namespace CommandLineItem

/-- The arguments that a part is written as. -/
def written : CommandLineItem → List String
  | dump => ["--dump"]
  | commands => ["--commands"]
  | help => ["--help"]
  | cluster flags rest _ => [CanvasScript.cluster (flags.map ShortFlag.char ++ rest.chars)]
  | clusterWith flags target => [CanvasScript.cluster (flags.map ShortFlag.char ++ ['s']), target]
  | word text _ => [text]

end CommandLineItem

def ShortFlag.request : ShortFlag → OptionRequest
  | debug => .debug
  | help => .help

def ClusterEnd.requests : ClusterEnd → List OptionRequest
  | plain => []
  | skip => [.settings .skip]
  | file first more => [.settings (.file (String.ofList (first :: more)))]
  | attached first more => [.target (String.ofList (first :: more))]

namespace CommandLineItem

def requests : CommandLineItem → List OptionRequest
  | dump => [.dump]
  | commands => [.commands]
  | help => [.help]
  | cluster flags rest _ => flags.map ShortFlag.request ++ rest.requests
  | clusterWith flags target => flags.map ShortFlag.request ++ [.target target]
  | word _ _ => []

def word? : CommandLineItem → Option String
  | word text _ => some text
  | _ => none

end CommandLineItem

namespace CommandLine

/-- The arguments that a command line is written as. -/
def written (line : CommandLine) : List String :=
  line.items.flatMap CommandLineItem.written ++
    (match line.behind with
    | none => []
    | some words => "--" :: words)

def requests (line : CommandLine) : List OptionRequest :=
  line.items.flatMap CommandLineItem.requests

/-- All words, in front of `--` and behind it. -/
def words (line : CommandLine) : List String :=
  line.items.filterMap CommandLineItem.word? ++ line.behind.getD []

end CommandLine

/-! ## What is asked for -/

namespace OptionRequest

def settings? : OptionRequest → Option SettingsSource
  | settings source => some source
  | _ => none

def target? : OptionRequest → Option String
  | target name => some name
  | _ => none

/-- What is asked for when one more request is made. -/
def apply (asked : Arguments) : OptionRequest → Arguments
  | dump => { asked with dump := true }
  | commands => { asked with listCommands := true }
  | help => { asked with help := true }
  | debug => { asked with debug := true }
  | settings source => { asked with settings := source }
  | target name => { asked with target := some name }

end OptionRequest

/-- What requests come to: the last one for the settings and for the target counts, and of the
others whether there is one. -/
def asksFor (requests : List OptionRequest) : Arguments where
  settings := (requests.filterMap OptionRequest.settings?).getLast?.getD .search
  target := (requests.filterMap OptionRequest.target?).getLast?
  debug := decide (.debug ∈ requests)
  dump := decide (.dump ∈ requests)
  listCommands := decide (.commands ∈ requests)
  help := decide (.help ∈ requests)
  script := none

/-- The script among the words, when it is not the standard input. -/
def scriptOf : List String → Option String
  | [] => none
  | word :: _ => if word = "-" then none else some word

/-- What a command line asks for. -/
def CommandLine.result (line : CommandLine) : Arguments :=
  { asksFor line.requests with script := scriptOf line.words }

/-- Requests made one after the other are requests made together. -/
theorem foldl_apply (requests : List OptionRequest) :
    requests.foldl OptionRequest.apply .initial = asksFor requests := by
  induction requests using List.reverseRecOn with
  | nil => rfl
  | append_singleton requests last ih =>
    rw [List.foldl_append, List.foldl_cons, List.foldl_nil, ih]
    cases last <;>
      simp [OptionRequest.apply, asksFor, List.filterMap_append, OptionRequest.settings?,
        OptionRequest.target?]

/-! ## Clusters -/

namespace Arguments

/-- The flags at the front of a cluster are taken one by one, in their order. What stands behind
them is read with what they have asked for. -/
theorem readCluster_flags (asked : Arguments) (flags : List ShortFlag) (letters : List Char) :
    readCluster asked (flags.map ShortFlag.char ++ letters) =
      readCluster ((flags.map ShortFlag.request).foldl OptionRequest.apply asked) letters := by
  induction flags generalizing asked with
  | nil => rfl
  | cons flag flags ih =>
    rw [List.map_cons, List.map_cons, List.cons_append, List.foldl_cons, ← ih]
    cases flag with
    | debug => rfl
    | help => rfl

/-- The end of a cluster is an option with its value, or nothing. -/
theorem readCluster_end (asked : Arguments) (rest : ClusterEnd) :
    readCluster asked rest.chars = .ok (rest.requests.foldl OptionRequest.apply asked, false) := by
  cases rest with
  | plain => rfl
  | skip => rfl
  | file first more => rfl
  | attached first more => rfl

/-- The letters of a cluster that can be read are flags and an end, or flags and the letter that
takes the next argument. The cases are those of the reader, so each letter that it accepts gives one
flag or ends the cluster. -/
theorem exists_of_readCluster {asked next : Arguments} {letters : List Char} {takes : Bool}
    (h : readCluster asked letters = .ok (next, takes)) :
    ∃ flags : List ShortFlag,
      (takes = false ∧ ∃ rest : ClusterEnd, letters = flags.map ShortFlag.char ++ rest.chars) ∨
        (takes = true ∧ letters = flags.map ShortFlag.char ++ ['s']) := by
  fun_induction readCluster asked letters with
  | case1 asked =>
    obtain ⟨-, rfl⟩ := Prod.mk.inj (Except.ok.inj h)
    exact ⟨[], .inl ⟨rfl, .plain, rfl⟩⟩
  | case2 asked more ih =>
    obtain ⟨flags, ⟨rfl, rest, rfl⟩ | ⟨rfl, rfl⟩⟩ := ih h
    · exact ⟨.debug :: flags, .inl ⟨rfl, rest, rfl⟩⟩
    · exact ⟨.debug :: flags, .inr ⟨rfl, rfl⟩⟩
  | case3 asked more ih =>
    obtain ⟨flags, ⟨rfl, rest, rfl⟩ | ⟨rfl, rfl⟩⟩ := ih h
    · exact ⟨.help :: flags, .inl ⟨rfl, rest, rfl⟩⟩
    · exact ⟨.help :: flags, .inr ⟨rfl, rfl⟩⟩
  | case4 asked =>
    obtain ⟨-, rfl⟩ := Prod.mk.inj (Except.ok.inj h)
    exact ⟨[], .inl ⟨rfl, .skip, rfl⟩⟩
  | case5 asked path hpath =>
    obtain ⟨-, rfl⟩ := Prod.mk.inj (Except.ok.inj h)
    obtain ⟨first, more, rfl⟩ := List.exists_cons_of_ne_nil hpath
    exact ⟨[], .inl ⟨rfl, .file first more, rfl⟩⟩
  | case6 asked =>
    obtain ⟨-, rfl⟩ := Prod.mk.inj (Except.ok.inj h)
    exact ⟨[], .inr ⟨rfl, rfl⟩⟩
  | case7 asked target htarget =>
    obtain ⟨-, rfl⟩ := Prod.mk.inj (Except.ok.inj h)
    obtain ⟨first, more, rfl⟩ := List.exists_cons_of_ne_nil htarget
    exact ⟨[], .inl ⟨rfl, .attached first more, rfl⟩⟩
  | case8 asked c more => exact absurd h (by simp)

/-! ## Kinds of arguments -/

/-- A dash and a letter that is no dash are taken for a cluster. -/
theorem kindOf_cluster {c : Char} (hc : c ≠ '-') (letters : List Char) :
    kindOf (CanvasScript.cluster (c :: letters)) = .cluster (c :: letters) := by
  -- the long options begin with two dashes, and this argument does not
  have hne : ∀ option : String, option.toList.take 2 = ['-', '-'] →
      CanvasScript.cluster (c :: letters) ≠ option := by
    rintro option hoption rfl
    rw [CanvasScript.cluster, String.toList_ofList] at hoption
    simp only [List.take_succ_cons, List.take_zero, List.cons.injEq, and_true, true_and] at hoption
    exact hc hoption
  rw [kindOf, if_neg (hne _ (by decide)), if_neg (hne _ (by decide)), if_neg (hne _ (by decide)),
    if_neg (hne _ (by decide)), CanvasScript.cluster, String.toList_ofList]
  split
  · rename_i rest heq
    simp only [List.cons.injEq, true_and] at heq
    exact absurd heq.1 hc
  · rename_i d rest hnot heq
    simp only [List.cons.injEq, true_and] at heq
    rw [heq.1, heq.2]
  · rename_i hnot hcluster
    exact absurd rfl (hcluster c letters)

/-- A word is taken for one if it begins with no dash, or is a dash alone. The long options are told
from it by their first character. -/
theorem kindOf_word {word : String} (h : IsPlainWord word) : kindOf word = .word := by
  rcases h with rfl | hstart
  · rfl
  · have hne : ∀ option : String, option.toList.head? = some '-' → word ≠ option := by
      rintro option hoption rfl
      exact hstart hoption
    rw [kindOf, if_neg (hne _ (by decide)), if_neg (hne _ (by decide)), if_neg (hne _ (by decide)),
      if_neg (hne _ (by decide))]
    split
    · rename_i rest heq
      exact absurd (by rw [heq]; rfl) hstart
    · rename_i d rest hnot heq
      exact absurd (by rw [heq]; rfl) hstart
    · rfl

/-! ## Reading a written command line -/

/-- Words put in front of those that are read. -/
def withWord (word? : Option String) (result : Arguments × List String) :
    Arguments × List String := (result.1, word?.toList ++ result.2)

/-- A cluster with flags or an end in it is taken for a cluster, as its first letter is no dash. -/
theorem kindOf_letters (flags : List ShortFlag) {tail : List Char}
    (hne : flags.map ShortFlag.char ++ tail ≠ []) (hdash : tail.head? ≠ some '-') :
    kindOf (CanvasScript.cluster (flags.map ShortFlag.char ++ tail)) =
      .cluster (flags.map ShortFlag.char ++ tail) := by
  rcases flags with _ | ⟨flag, flags⟩
  · rcases tail with _ | ⟨c, tail⟩
    · exact absurd rfl hne
    · exact kindOf_cluster (fun hc => hdash (by rw [hc]; rfl)) tail
  · refine kindOf_cluster ?_ _
    cases flag with
    | debug => decide
    | help => decide

/-- No end of a cluster begins with a dash. -/
theorem ClusterEnd.head?_chars_ne (rest : ClusterEnd) : rest.chars.head? ≠ some '-' := by
  cases rest <;> simp [ClusterEnd.chars]

theorem letters_ne_nil {flags : List ShortFlag} {rest : ClusterEnd}
    (filled : flags ≠ [] ∨ rest ≠ .plain) : flags.map ShortFlag.char ++ rest.chars ≠ [] := by
  intro hnil
  obtain ⟨hflags, hrest⟩ := List.append_eq_nil_iff.1 hnil
  rcases filled with hfilled | hfilled
  · exact hfilled (List.map_eq_nil_iff.1 hflags)
  · cases rest with
    | plain => exact hfilled rfl
    | skip => exact absurd hrest (by simp [ClusterEnd.chars])
    | file first more => exact absurd hrest (by simp [ClusterEnd.chars])
    | attached first more => exact absurd hrest (by simp [ClusterEnd.chars])

/-- A part of a command line adds its requests and its word. This is the step of reading what has
been written: whatever stands behind the part is read with what has been asked so far. -/
theorem readAll_item (item : CommandLineItem) (asked : Arguments) (rest : List String) :
    readAll asked (item.written ++ rest) =
      (readAll (item.requests.foldl OptionRequest.apply asked) rest).map (withWord item.word?) := by
  -- a part without a word leaves the words as they are
  have hmap : ∀ result : Except ArgumentFault (Arguments × List String),
      result.map (withWord none) = result := by
    rintro (fault | ⟨all, words⟩)
    · rfl
    · rfl
  cases item with
  | dump => exact (hmap _).symm
  | commands => exact (hmap _).symm
  | help => exact (hmap _).symm
  | word text plain =>
    rw [CommandLineItem.written, List.singleton_append, readAll, kindOf_word plain]
    rfl
  | cluster flags tail filled =>
    have hkind := kindOf_letters flags (letters_ne_nil filled) (ClusterEnd.head?_chars_ne tail)
    have hnone : (CommandLineItem.cluster flags tail filled).word? = none := rfl
    rw [hnone, hmap, CommandLineItem.written, List.singleton_append, readAll, hkind]
    dsimp only
    rw [readCluster_flags, readCluster_end, ← List.foldl_append]
    rfl
  | clusterWith flags target =>
    have hne : flags.map ShortFlag.char ++ ['s'] ≠ [] := by simp
    have hkind := kindOf_letters flags hne (by decide)
    have hnone : (CommandLineItem.clusterWith flags target).word? = none := rfl
    rw [hnone, hmap, CommandLineItem.written, List.cons_append, List.singleton_append, readAll,
      hkind]
    dsimp only
    rw [readCluster_flags, readCluster, CommandLineItem.requests, List.foldl_append]
    rfl

/-- The parts of a command line add their requests and their words in their order. -/
theorem readAll_items (items : List CommandLineItem) (asked : Arguments) (rest : List String) :
    readAll asked (items.flatMap CommandLineItem.written ++ rest) =
      (readAll ((items.flatMap CommandLineItem.requests).foldl OptionRequest.apply asked) rest).map
        fun (all, words) => (all, items.filterMap CommandLineItem.word? ++ words) := by
  induction items generalizing asked with
  | nil =>
    rw [List.flatMap_nil, List.flatMap_nil, List.nil_append, List.foldl_nil]
    rcases readAll asked rest with fault | ⟨all, words⟩
    · rfl
    · rfl
  | cons item items ih =>
    rw [List.flatMap_cons, List.flatMap_cons, List.append_assoc, readAll_item, ih,
      List.foldl_append]
    rcases readAll ((items.flatMap CommandLineItem.requests).foldl OptionRequest.apply
      (item.requests.foldl OptionRequest.apply asked)) rest with fault | ⟨all, words⟩
    · rfl
    · rcases hword : item.word? with _ | word
      · simp [Except.map, withWord, hword]
      · simp [Except.map, withWord, hword]

/-- **A written command line is read as its requests and its words.** Whether there are too many
words is asked afterwards, so up to here nothing can fail. -/
theorem readAll_written (line : CommandLine) :
    readAll .initial line.written = .ok (asksFor line.requests, line.words) := by
  obtain ⟨items, behind⟩ := line
  rw [CommandLine.written, readAll_items, ← foldl_apply]
  rcases behind with _ | words
  · rfl
  · rfl

/-- So a written command line is read as what it asks for, with its words. -/
theorem read_written (line : CommandLine) :
    read line.written = (asksFor line.requests).withWords line.words := by
  rw [read, readAll_written]
  rfl

/-! ## Arguments that can be read -/

/-- An argument that is a word, or one that is a cluster of letters. -/
theorem isPlainWord_of_kindOf {argument : String} (h : kindOf argument = .word) :
    IsPlainWord argument := by
  rw [kindOf] at h
  split_ifs at h
  split at h
  · exact absurd h (by simp)
  · exact absurd h (by simp)
  · rename_i hnot hcluster
    -- a word that begins with a dash is a dash alone, as two characters would be a cluster
    by_cases hstart : argument.toList.head? = some '-'
    · obtain ⟨rest, hrest⟩ := List.head?_eq_some_iff.1 hstart
      rcases rest with _ | ⟨c, rest⟩
      · exact .inl (String.toList_injective hrest)
      · exact absurd hrest (hcluster c rest)
    · exact .inr hstart

/-- What is taken for a cluster is one, and has a letter. -/
theorem eq_cluster_of_kindOf {argument : String} {letters : List Char}
    (h : kindOf argument = .cluster letters) :
    argument = CanvasScript.cluster letters ∧ letters ≠ [] := by
  rw [kindOf] at h
  split_ifs at h
  split at h
  · exact absurd h (by simp)
  · rename_i c rest hnot heq
    obtain rfl := Kind.cluster.inj h
    refine ⟨?_, List.cons_ne_nil _ _⟩
    rw [CanvasScript.cluster, ← heq, String.ofList_toList]
  · exact absurd h (by simp)

/-- An argument that is an option by itself is one of three. -/
theorem exists_of_kindOf_option {argument : String} {ask : Arguments → Arguments}
    (h : kindOf argument = .option ask) :
    ∃ item : CommandLineItem, item.written = [argument] := by
  rw [kindOf] at h
  split_ifs at h with hend hdump hcommands hhelp
  · exact ⟨.dump, by rw [hdump]; rfl⟩
  · exact ⟨.commands, by rw [hcommands]; rfl⟩
  · exact ⟨.help, by rw [hhelp]; rfl⟩
  · split at h
    · exact absurd h (by simp)
    · exact absurd h (by simp)
    · exact absurd h (by simp)

/-- What is taken for the end of the options is just that argument. -/
theorem eq_of_kindOf_endOfOptions {argument : String} (h : kindOf argument = .endOfOptions) :
    argument = "--" := by
  rw [kindOf] at h
  split_ifs at h with hend
  · exact hend
  · split at h
    · exact absurd h (by simp)
    · exact absurd h (by simp)
    · exact absurd h (by simp)

end Arguments

/-- A command line with a part in front of it. -/
def CommandLine.cons (item : CommandLineItem) (line : CommandLine) : CommandLine :=
  ⟨item :: line.items, line.behind⟩

theorem CommandLine.written_cons (item : CommandLineItem) (line : CommandLine) :
    (line.cons item).written = item.written ++ line.written := by
  rw [cons, written, written, List.flatMap_cons, List.append_assoc]

/-- **Arguments that can be read are a written command line.** Each way in which the reader takes an
argument is a part of the grammar, so the command line is built from the end, one part for each
argument or for two. -/
theorem exists_written_of_readAll {asked : Arguments} {arguments : List String}
    {result : Arguments × List String} (h : Arguments.readAll asked arguments = .ok result) :
    ∃ line : CommandLine, line.written = arguments := by
  fun_induction Arguments.readAll asked arguments generalizing result with
  | case1 asked => exact ⟨⟨[], none⟩, rfl⟩
  | case2 asked argument rest hkind =>
    obtain rfl := Arguments.eq_of_kindOf_endOfOptions hkind
    exact ⟨⟨[], some rest⟩, rfl⟩
  | case3 asked argument rest ask hkind ih =>
    obtain ⟨item, hitem⟩ := Arguments.exists_of_kindOf_option hkind
    obtain ⟨line, rfl⟩ := ih h
    exact ⟨line.cons item, by rw [line.written_cons, hitem]; rfl⟩
  | case4 asked argument rest hkind => exact absurd h (by simp)
  | case5 asked argument rest hkind ih =>
    rcases hrest : Arguments.readAll asked rest with fault | ⟨all, words⟩
    · simp [hrest, Except.map] at h
    · obtain ⟨line, rfl⟩ := ih hrest
      refine ⟨line.cons (.word argument (Arguments.isPlainWord_of_kindOf hkind)), ?_⟩
      rw [line.written_cons]
      rfl
  | case6 asked argument rest letters hkind fault hcluster => exact absurd h (by simp)
  | case7 asked argument rest letters hkind next hcluster ih =>
    obtain ⟨rfl, hne⟩ := Arguments.eq_cluster_of_kindOf hkind
    obtain ⟨flags, ⟨-, tail, rfl⟩ | ⟨htakes, -⟩⟩ := Arguments.exists_of_readCluster hcluster
    · -- an argument of a dash alone is a word, so a cluster has a letter in it
      have filled : flags ≠ [] ∨ tail ≠ .plain := by
        by_contra hnot
        push Not at hnot
        obtain ⟨rfl, rfl⟩ := hnot
        exact hne rfl
      obtain ⟨line, rfl⟩ := ih h
      exact ⟨line.cons (.cluster flags tail filled), by rw [line.written_cons]; rfl⟩
    · exact absurd htakes (by decide)
  | case8 asked argument letters hkind next hcluster => exact absurd h (by simp)
  | case9 asked argument letters hkind next hcluster target others ih =>
    obtain ⟨rfl, -⟩ := Arguments.eq_cluster_of_kindOf hkind
    obtain ⟨flags, ⟨htakes, -⟩ | ⟨-, rfl⟩⟩ := Arguments.exists_of_readCluster hcluster
    · exact absurd htakes (by decide)
    · obtain ⟨line, rfl⟩ := ih h
      exact ⟨line.cons (.clusterWith flags target), by rw [line.written_cons]; rfl⟩

/-! ## The grammar -/

/-- With at most one word, that is the script. -/
theorem Arguments.withWords_asksFor (requests : List OptionRequest) (words : List String) :
    (asksFor requests).withWords words =
      if words.length ≤ 1 then .ok { asksFor requests with script := scriptOf words }
      else .error (.tooMany words.length) := by
  rcases words with _ | ⟨word, _ | ⟨second, more⟩⟩
  · rfl
  · have hone : [word].length ≤ 1 := Nat.le_refl 1
    rw [withWords, if_pos hone, scriptOf]
    split_ifs
    · rfl
    · rfl
  · have hmany : ¬ (word :: second :: more).length ≤ 1 := by simp
    rw [if_neg hmany]
    rfl

/-- Two command lines that differ in the order of requests of different kinds, in how short options
are put together, and in whether a target is part of a cluster. -/
structure CommandLine.Alike (a b : CommandLine) : Prop where
  settings : a.requests.filterMap OptionRequest.settings? =
    b.requests.filterMap OptionRequest.settings?
  targets : a.requests.filterMap OptionRequest.target? = b.requests.filterMap OptionRequest.target?
  flags : ∀ flag ∈ [OptionRequest.dump, .commands, .help, .debug],
    flag ∈ a.requests ↔ flag ∈ b.requests
  words : a.words = b.words

/-- **Reading decides the grammar of command lines**, with at most one word. What is read is the
result of the command line, and command lines that are alike are read alike: they have the same
settings, targets and words in the same order, and the same flags in any order and number. -/
theorem read_eq_ok_iff (arguments : List String) (result : Arguments) :
    (Arguments.read arguments = .ok result ↔
      ∃ line : CommandLine, line.written = arguments ∧ line.words.length ≤ 1 ∧
        line.result = result) ∧
      ∀ a b : CommandLine, a.Alike b → Arguments.read a.written = Arguments.read b.written := by
  constructor
  · constructor
    · intro h
      obtain ⟨asked, hall⟩ : ∃ all, Arguments.readAll .initial arguments = .ok all := by
        rcases hall : Arguments.readAll .initial arguments with fault | all
        · simp [Arguments.read, hall, Except.bind] at h
        · exact ⟨all, rfl⟩
      obtain ⟨line, rfl⟩ := exists_written_of_readAll hall
      rw [Arguments.read_written, Arguments.withWords_asksFor] at h
      split_ifs at h with hwords
      exact ⟨line, rfl, hwords, Except.ok.inj h⟩
    · rintro ⟨line, rfl, hwords, rfl⟩
      rw [Arguments.read_written, Arguments.withWords_asksFor, if_pos hwords]
      rfl
  · intro a b h
    -- of a flag only its presence matters, and alike command lines have the same ones
    have hflag : ∀ flag ∈ [OptionRequest.dump, .commands, .help, .debug],
        decide (flag ∈ a.requests) = decide (flag ∈ b.requests) := fun flag hflag =>
      decide_eq_decide.2 (h.flags flag hflag)
    have hasked : asksFor a.requests = asksFor b.requests := by
      rw [asksFor, asksFor, h.settings, h.targets, hflag .dump (by simp), hflag .commands (by simp),
        hflag .help (by simp), hflag .debug (by simp)]
    rw [Arguments.read_written, Arguments.read_written, hasked, h.words]

end CanvasScript
