import LayerGraph.Shape.Basic
/-!
# Datasets

The image datasets that a network can be trained on, with the shape of their batches.
-/

namespace LayerGraph
set_option autoImplicit false

/-- How the training part of a dataset is told from the test part. -/
inductive DatasetSplit
  /-- By a flag. -/
  | trainFlag
  /-- By the name of the part. -/
  | named
  deriving DecidableEq, Repr

/-- An image dataset. -/
structure Dataset where
  name : String
  className : String
  channels : Int
  height : Int
  width : Int
  classes : Int
  split : DatasetSplit
  deriving DecidableEq, Repr

namespace Dataset

def shape (d : Dataset) : Shape := Shape.image d.channels d.height d.width

def all : List Dataset :=
  [⟨"MNIST", "MNIST", 1, 28, 28, 10, .trainFlag⟩,
   ⟨"FashionMNIST", "FashionMNIST", 1, 28, 28, 10, .trainFlag⟩,
   ⟨"CIFAR10", "CIFAR10", 3, 32, 32, 10, .trainFlag⟩,
   ⟨"CIFAR100", "CIFAR100", 3, 32, 32, 100, .trainFlag⟩,
   ⟨"ImageNet", "ImageNet", 3, 224, 224, 1000, .named⟩]

def find? (name : String) : Option Dataset := all.find? (·.name == name)

end Dataset
end LayerGraph
