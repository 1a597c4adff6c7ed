import StoreAudit.Text.Split

/-!
# Help texts

The subcommands and what the program says about them.
-/

namespace StoreAudit

/-- The subcommands. -/
inductive Subcommand where
  | fsck
  | help
  | version
  deriving DecidableEq, Repr

namespace Subcommand

/-- All subcommands, in the order in which help lists them. -/
def all : List Subcommand := [fsck, help, version]

/-- The name of a subcommand. -/
def name : Subcommand → Bytes
  | fsck => ascii "fsck"
  | help => ascii "help"
  | version => ascii "version"

/-- What a subcommand does. -/
def description : Subcommand → Bytes
  | fsck => ascii "Check large objects and pointers for integrity"
  | help => ascii "Show help for a given topic"
  | version => ascii "Show version information"

/-- The subcommand with a name. -/
def ofName? (name : Bytes) : Option Subcommand := all.find? fun command => command.name = name

/-- The width of the column of names. -/
def nameWidth : Nat := 15

/-- The line of a subcommand in the overview. -/
def overviewLine (command : Subcommand) : Bytes :=
  command.name ++ List.replicate (nameWidth - command.name.length) Ascii.space ++
    Ascii.space :: command.description ++ [Ascii.newline]

end Subcommand

namespace HelpText

/-- The line that names the program and its version. -/
def banner : Bytes := ascii "Large object store tools (0.1.0) - Command Line Interface\n"

/-- The overview of all subcommands. -/
def overview : Bytes :=
  banner ++ ascii "\nAvailable commands:\n" ++ Subcommand.all.flatMap Subcommand.overviewLine

/-- The version. -/
def version : Bytes := banner ++ ascii "Build: RELEASE\n"

/-- The reminder of how a check is called. -/
def usageLine : Bytes := ascii "Usage: lfs fsck [OPTIONS] [<ref> | <ref1>..<ref2>]\n"

/-- The description of a check. -/
def usage : Bytes :=
  Bytes.ofLines
    [ascii "lfs fsck [OPTIONS] [<ref> | <ref1>..<ref2>]",
     [],
     ascii "Check the large objects referenced by the given commits, or by",
     ascii "HEAD and the index when no ref is given, and the pointers that",
     ascii "name them.  Corrupt objects are moved to <storage>/bad.",
     [],
     ascii "Options:",
     ascii "    -d, --dry-run  Report problems but do not move objects",
     ascii "    --objects      Check object contents",
     ascii "    --pointers     Check pointer canonicality",
     ascii "    -j, --jobs N   Hash objects on N threads",
     [],
     ascii "Exit status is 0 if all is well, 1 if problems were found and",
     ascii "2 on error."]

/-- The text about a name that is no subcommand. -/
def unknownCommand (name : Bytes) : Bytes := ascii "Unknown command '" ++ name ++ ascii "'\n"

/-- The help on a topic. -/
def topic (name : Bytes) : Bytes :=
  match Subcommand.ofName? name with
  | some .fsck => usage
  | some _ => ascii "No help for command '" ++ name ++ ascii "'\n"
  | none => unknownCommand name

end HelpText

end StoreAudit
