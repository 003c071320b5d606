import Lox.Main
import Lox.Native.Library
import Lox.Proofs.Lexemes
import Lox.Proofs.Parser.Sentences
import Lox.Proofs.Scoping.Histories
import Lox.Proofs.Split
import Lox.Proofs.Rejected
import Lox.Proofs.Hygiene
import Lox.Proofs.ChainWalk
import Lox.Proofs.Account
import Lox.Proofs.Endings
import Lox.Proofs.Parser.Writing
import Lox.Proofs.Loops.Sessions
import Lox.Proofs.Restored
import Lox.Proofs.Parser.Segments
import Lox.Proofs.Parser.Gaps
import Lox.Proofs.Parser.Order
import Lox.Proofs.Unshared
import Lox.Proofs.Rooted
import Lox.Proofs.Executed
import Lox.Proofs.Scoping.Lexical
import Lox.Proofs.Executable
import Lox.Proofs.Machine.Confined
import Lox.Proofs.Parser.Bounds
import Lox.Proofs.Nearest
import Lox.Proofs.Layout
import Lox.Proofs.ReadBack
import Lox.Proofs.Identity
import Lox.Proofs.Listing
import Lox.Proofs.Dump.Unambiguous
import Lox.Proofs.Parser.Overlong
