import ClassAccess.Access.Level
import ClassAccess.Access.Toggle
import ClassAccess.Access.Word
import ClassAccess.ClassFile.Attribute
import ClassAccess.ClassFile.Basic
import ClassAccess.ClassFile.Codec
import ClassAccess.ClassFile.Constant
import ClassAccess.ClassFile.Fault
import ClassAccess.ClassFile.NestedClass
import ClassAccess.ClassFile.Pool
import ClassAccess.ClassFile.PoolBuilder
import ClassAccess.ClassFile.Version
import ClassAccess.ClassFile.Walk
import ClassAccess.Command.Arguments
import ClassAccess.Command.Run
import ClassAccess.Descriptor.Basic
import ClassAccess.Descriptor.Reader
import ClassAccess.Files.Fault
import ClassAccess.Files.Host
import ClassAccess.Files.Links
import ClassAccess.Files.Path
import ClassAccess.Files.Save
import ClassAccess.Files.Tree
import ClassAccess.Log
import ClassAccess.Main
import ClassAccess.Name
import ClassAccess.Proofs.Fallible
import ClassAccess.Proofs.Layout.ClassFile
import ClassAccess.Proofs.Name
import ClassAccess.Proofs.Reading
import ClassAccess.Proofs.Rule.Reading
import ClassAccess.Proofs.Rule.Rewriting
import ClassAccess.Proofs.Rule.RoundTrip
import ClassAccess.Proofs.Storage
import ClassAccess.Proofs.Transform.Decisions
import ClassAccess.Proofs.Transform.Faults
import ClassAccess.Proofs.Transform.FollowsRules
import ClassAccess.Proofs.Transform.Frame
import ClassAccess.Proofs.Transform.Idempotence
import ClassAccess.Proofs.Transform.Shortcuts
import ClassAccess.Proofs.Walk.Accept
import ClassAccess.Proofs.Walk.Calls
import ClassAccess.Proofs.Walk.Faults
import ClassAccess.Proofs.Walk.Rewritten
import ClassAccess.Rule.Directive
import ClassAccess.Rule.Load
import ClassAccess.Rule.RuleSet
import ClassAccess.Rule.Source
import ClassAccess.Rule.Syntax
import ClassAccess.SlotTable
import ClassAccess.Text.Blank
import ClassAccess.Text.Hex
import ClassAccess.Text.Lines
import ClassAccess.Text.ModifiedUtf8
import ClassAccess.Text.Split
import ClassAccess.Text.Utf16
import ClassAccess.Transform
import ClassAccess.Proofs.Descriptor.PrefixCode
import ClassAccess.Proofs.Descriptor.Grammar
import ClassAccess.Proofs.Rule.Grammar
import ClassAccess.Proofs.Rule.Source
import ClassAccess.Proofs.Text.ModifiedUtf8
import ClassAccess.Proofs.Rule.Building
import ClassAccess.Proofs.Walk.Events
import ClassAccess.Proofs.Transform.Stages
import ClassAccess.Proofs.Transform.Independence
import ClassAccess.Proofs.Transform.Reflection
import ClassAccess.Proofs.Pool.Survival
import ClassAccess.Proofs.Rule.Reloading
import ClassAccess.Proofs.Command.InPlace
import ClassAccess.Proofs.Command.Output
import ClassAccess.Proofs.Command.LinkedTurns
import ClassAccess.Proofs.Command.Failing
import ClassAccess.Proofs.Command.DryRun
import ClassAccess.Proofs.Pool.Equality
import ClassAccess.Proofs.Truncation
import ClassAccess.Proofs.Transform.Diagnostics
import ClassAccess.Proofs.Rule.Finding
import ClassAccess.Proofs.Rule.Overriding
import ClassAccess.Proofs.Rule.DecidedBits
import ClassAccess.Proofs.Text.Acceptance
import ClassAccess.Proofs.Text.Bits
import ClassAccess.Proofs.Descriptor.Incomplete
import ClassAccess.Proofs.Rule.Refusing
import ClassAccess.Proofs.NestedClass
import ClassAccess.Proofs.Placing
import ClassAccess.Proofs.Pool.Lookup
import ClassAccess.Proofs.ReadingFaults
import ClassAccess.Proofs.Pool.Filling
import ClassAccess.Proofs.Text.Order
import ClassAccess.Proofs.Command.Unused
import ClassAccess.Proofs.Covering
